import Mathlib.Algebra.Group.Nat.Even
import Mathlib.Data.Finset.Max
import Mathlib.Data.List.TakeWhile
import Workbench.Knight.BackTracking
import Workbench.Lib.System

/-!
# `Knight.Warnsdorff` — `WalkThrowChessWarnsdorff`

The counter of each unvisited neighbour is compared with the minimum so far and decremented in one expression, and the
minimum is the counter after that. So a counter that is less by 1 than the one before it is not taken. A decrement below
the smallest `int` is no result here.

## Contents
* `scanMoves`, `warnsdorffCall`, `walkThrowChessWarnsdorff` — the loop, one call, and the recursion;
* `select`, `stairs` — what the loop takes, and when it is the smallest;
* `scanMoves_eq` — the loop takes it;
* `stepRight_iff`, `warnsdorff_iff` — one call, and all calls of a walk.
-/

namespace Workbench.Knight

open DynamicVector (vectorPushBack Room)

def intMin : Int := -2147483648

/-- `possible_moves_idx_lut[8][index]--`. -/
def decrement (lut : Lut) (index : Int) : Option Lut := do
  let square ← squareAt index
  let counter := lut counterRow square
  if counter - 1 < intMin then none else return writeLut lut counterRow square (counter - 1)

/-- The loop over the moves. It gives the table and `min_index`. -/
def scanMoves (isVisited : BitArray) (index : Int) : List (Fin 8) → Lut → Int → Int → Option (Lut × Int)
  | [], lut, _, minIndex => some (lut, minIndex)
  | i :: is, lut, min, minIndex => do
      let nextMove ← readLut lut i.castSucc index
      let skipped ← if nextMove ≠ 0 then bitsArrGetVal isVisited (index + nextMove + 1) else some true
      if skipped then
        scanMoves isVisited index is lut min minIndex
      else do
        let counter ← readLut lut counterRow (index + nextMove)
        let lut ← decrement lut (index + nextMove)
        if min > counter then do
          let min ← readLut lut counterRow (index + nextMove)
          scanMoves isVisited index is lut min nextMove
        else
          scanMoves isVisited index is lut min minIndex

/-- The arguments of a call, and the table at its start. -/
structure Call where
  lut : Lut
  vector : Path
  isVisited : BitArray
  index : Int

/-- A call that is left for the next one, or that returns. -/
inductive Outcome
  | next (call : Call)
  | done (lut : Lut) (vector : Path) (result : BitArray)

def warnsdorffCall (call : Call) : Option Outcome := do
  let isVisited ← bitsArrSetBit call.isVisited (call.index + 1) 1
  let (vector, _) ← vectorPushBack call.vector call.index .block
  if isVisited = allBitsOn then return .done call.lut vector allBitsOn
  else
    let (lut, minIndex) ← scanMoves isVisited call.index (List.finRange 8) call.lut 9 0
    if minIndex = 0 then return .done lut vector 0
    else return .next ⟨lut, vector, isVisited, call.index + minIndex⟩

/-- One counter, with the minimum so far and the counter that it comes from. -/
def better (s : Int × Option Int) (value : Int) : Int × Option Int :=
  if s.1 > value then (value - 1, some value) else s

def select (values : List Int) : Int × Option Int := values.foldl better (9, none)

variable {values before after : List Int} {m value : Int} {k : Nat}

theorem select_concat (values : List Int) (value : Int) :
    select (values ++ [value]) = better (select values) value := by
  rw [select, List.foldl_append]
  rfl

/-- The minimum is less by 1 than the counter that it comes from. -/
def Selected (values : List Int) : Int × Option Int → Prop
  | (min, none) => min = 9 ∧ ∀ value ∈ values, 9 ≤ value
  | (min, some best) => min = best - 1 ∧ best ∈ values ∧ best ≤ 8 ∧ ∀ value ∈ values, best - 1 ≤ value

theorem select_selected (values : List Int) : Selected values (select values) := by
  induction values using List.reverseRecOn with
  | nil => exact ⟨rfl, nofun⟩
  | append_singleton values value ih =>
      rw [select_concat, better]
      have hmem : ∀ v, v ∈ values ++ [value] ↔ v ∈ values ∨ v = value := fun v => by
        rw [List.mem_append, List.mem_singleton]
      obtain ⟨⟨min, best⟩, hs⟩ : ∃ s, select values = s := ⟨_, rfl⟩
      rw [hs] at ih ⊢
      by_cases hless : min > value
      · rw [if_pos hless]
        cases best with
        | none =>
            obtain ⟨rfl, hall⟩ := ih
            refine ⟨rfl, (hmem value).mpr (.inr rfl), by omega, fun v hv => ?_⟩
            rcases (hmem v).mp hv with hold | rfl
            · have hnine := hall v hold
              omega
            · omega
        | some best =>
            obtain ⟨rfl, -, hbest, hall⟩ := ih
            refine ⟨rfl, (hmem value).mpr (.inr rfl), ?_, fun v hv => ?_⟩
            · have hless' : best - 1 > value := hless
              omega
            · have hless' : best - 1 > value := hless
              rcases (hmem v).mp hv with hold | rfl
              · have hge := hall v hold
                omega
              · omega
      · rw [if_neg hless]
        cases best with
        | none =>
            obtain ⟨rfl, hall⟩ := ih
            refine ⟨rfl, fun v hv => ?_⟩
            rcases (hmem v).mp hv with hold | rfl
            · exact hall v hold
            · exact Int.not_lt.mp hless
        | some best =>
            obtain ⟨rfl, hbest, height, hall⟩ := ih
            refine ⟨rfl, (hmem best).mpr (.inl hbest), height, fun v hv => ?_⟩
            rcases (hmem v).mp hv with hold | rfl
            · exact hall v hold
            · exact Int.not_lt.mp hless

theorem select_mem (h : (select values).2 = some value) :
    value ∈ values ∧ value ≤ 8 ∧ ∀ v ∈ values, value - 1 ≤ v := by
  have hselected := select_selected values
  obtain ⟨⟨min, best⟩, hs⟩ : ∃ s, select values = s := ⟨_, rfl⟩
  rw [hs] at hselected h
  dsimp only at h
  subst h
  exact hselected.2

variable {isVisited : BitArray} {p q : Square} {counters : Square → Int} {xs : List Int} {vector : Path}

/-- **An unvisited neighbour.** -/
def Exit (isVisited : BitArray) (p q : Square) : Prop := KnightMove p q ∧ ¬ Visited isVisited q

/-- The exit with a move. -/
def exitAt (isVisited : BitArray) (p : Square) (i : Fin 8) : Option Square :=
  (moveTo p i).filter fun q => decide (¬ Visited isVisited q)

theorem exitAt_eq_some_iff {i : Fin 8} :
    exitAt isVisited p i = some q ↔
      legit p i = true ∧ (p.val : Int) + moves 0 i = q.val ∧ ¬ Visited isVisited q := by
  rw [exitAt, Option.filter_eq_some_iff, moveTo_eq_some_iff, decide_eq_true_eq, and_assoc]

/-- The exits, in the order of the moves. -/
def exits (isVisited : BitArray) (p : Square) : List Square := (List.finRange 8).filterMap (exitAt isVisited p)

theorem mem_exits : q ∈ exits isVisited p ↔ Exit isVisited p q := by
  rw [exits, List.mem_filterMap]
  constructor
  · rintro ⟨i, -, hi⟩
    obtain ⟨hlegit, hq, hvisited⟩ := exitAt_eq_some_iff.mp hi
    obtain ⟨q', hq', hknight⟩ := exists_square hlegit
    obtain rfl : q' = q := val_inj (hq.symm.trans hq')
    exact ⟨hknight, hvisited⟩
  · rintro ⟨hknight, hvisited⟩
    obtain ⟨i, hlegit, hq⟩ := hknight.exists_moveIndex
    exact ⟨i, List.mem_finRange i, exitAt_eq_some_iff.mpr ⟨hlegit, hq, hvisited⟩⟩

theorem exits_nodup (isVisited : BitArray) (p : Square) : (exits isVisited p).Nodup := by
  have hinj : ∀ i j : Fin 8, moves 0 i = moves 0 j → i = j := by decide
  refine (List.nodup_finRange 8).filterMap fun i j q hi hj => hinj i j ?_
  have hi' := (exitAt_eq_some_iff.mp hi).2.1
  have hj' := (exitAt_eq_some_iff.mp hj).2.1
  omega

/-! ## The loop -/

/-- The counters of the exits after the loop. -/
def lower (counters : Square → Int) (qs : List Square) : Square → Int :=
  fun q => if q ∈ qs then counters q - 1 else counters q

/-- One exit, with the minimum so far and the exit that it comes from. -/
def betterExit (counters : Square → Int) (s : Int × Option Square) (q : Square) : Int × Option Square :=
  if s.1 > counters q then (counters q - 1, some q) else s

/-- `min_index` for an exit. -/
def minIndexOf (p : Square) : Option Square → Int
  | none => 0
  | some q => q.val - p.val

theorem decrement_square (counters : Square → Int) (q : Square) :
    decrement (withCounters counters) q.val =
      if counters q - 1 < intMin then none
      else some (withCounters (Function.update counters q (counters q - 1))) := by
  rw [decrement, squareAt_square, Option.bind_eq_bind, Option.bind_some, withCounters_last]
  have hwrite : writeLut (withCounters counters) counterRow q (counters q - 1) =
      withCounters (Function.update counters q (counters q - 1)) := by
    rw [writeLut, withCounters_last, withCounters, Function.update_idem]
    rfl
  dsimp only
  rw [hwrite]
  rfl

/-- A move that is not an exit. -/
theorem scanMoves_skip {i : Fin 8} (hexit : exitAt isVisited p i = none) (is : List (Fin 8)) (min minIndex : Int) :
    scanMoves isVisited p.val (i :: is) (withCounters counters) min minIndex =
      scanMoves isVisited p.val is (withCounters counters) min minIndex := by
  rw [scanMoves, readLut_square, withCounters_eq]
  simp only [Option.bind_eq_bind, Option.bind_some]
  by_cases hlegit : legit p i = true
  · obtain ⟨q, hq, -⟩ := exists_square hlegit
    have hvisited : Visited isVisited q := by
      by_contra hnot
      rw [exitAt_eq_some_iff.mpr ⟨hlegit, hq, hnot⟩] at hexit
      cases hexit
    rw [if_pos hlegit, if_pos (moves_agree i).2.1, hq, bitsArrGetVal_square, Option.bind_some,
      if_pos (decide_eq_true hvisited)]
  · rw [if_neg hlegit, if_neg (not_not.mpr rfl), if_pos trivial]

/-- An exit. -/
theorem scanMoves_exit {i : Fin 8} (hexit : exitAt isVisited p i = some q) (is : List (Fin 8)) (min : Int)
    (best : Option Square) :
    scanMoves isVisited p.val (i :: is) (withCounters counters) min (minIndexOf p best) =
      if counters q - 1 < intMin then none
      else
        let counters' := Function.update counters q (counters q - 1)
        let (min', best') := betterExit counters (min, best) q
        scanMoves isVisited p.val is (withCounters counters') min' (minIndexOf p best') := by
  obtain ⟨hlegit, hq, hvisited⟩ := exitAt_eq_some_iff.mp hexit
  rw [scanMoves, readLut_square, withCounters_eq]
  simp only [Option.bind_eq_bind, Option.bind_some]
  rw [if_pos hlegit, if_pos (moves_agree i).2.1, hq, bitsArrGetVal_square, Option.bind_some,
    if_neg (by simpa using hvisited), readLut_square, withCounters_last, Option.bind_some, decrement_square]
  by_cases hlow : counters q - 1 < intMin
  · rw [if_pos hlow, if_pos hlow, Option.bind_none]
  · rw [if_neg hlow, if_neg hlow, Option.bind_some, readLut_square, withCounters_last, Option.bind_some,
      Function.update_self, betterExit]
    have hmove : moves 0 i = minIndexOf p (some q) := by
      show moves 0 i = q.val - p.val
      omega
    by_cases hless : min > counters q
    · rw [if_pos hless, if_pos hless, hmove]
    · rw [if_neg hless, if_neg hless]

/-- A decrement of another counter. -/
theorem foldl_betterExit_congr {counters' : Square → Int} (qs : List Square) (s : Int × Option Square)
    (h : ∀ q ∈ qs, counters' q = counters q) :
    qs.foldl (betterExit counters') s = qs.foldl (betterExit counters) s := by
  refine List.foldl_ext _ _ _ fun s q hq => ?_
  rw [betterExit, betterExit, h q hq]

theorem update_others (counters : Square → Int) {qs : List Square} (hnot : q ∉ qs) (value : Int) :
    ∀ q' ∈ qs, Function.update counters q value q' = counters q' := by
  intro q' hq'
  have hne : q' ≠ q := by
    rintro rfl
    exact hnot hq'
  exact Function.update_of_ne hne _ _

/-- One exit lowered, and then the others. -/
theorem lower_update {qs : List Square} (hnot : q ∉ qs) :
    lower (Function.update counters q (counters q - 1)) qs = lower counters (q :: qs) := by
  funext q'
  by_cases heq : q' = q
  · subst heq
    rw [lower, lower, if_neg hnot, if_pos List.mem_cons_self, Function.update_self]
  · simp only [lower, Function.update_of_ne heq, List.mem_cons, heq, false_or]

/-- The loop, where each exit is there once. -/
theorem scanMoves_eq (is : List (Fin 8)) (counters : Square → Int) (min : Int) (best : Option Square)
    (honce : (is.filterMap (exitAt isVisited p)).Nodup) :
    scanMoves isVisited p.val is (withCounters counters) min (minIndexOf p best) =
      if ∃ q ∈ is.filterMap (exitAt isVisited p), counters q - 1 < intMin then none
      else some (withCounters (lower counters (is.filterMap (exitAt isVisited p))),
        minIndexOf p ((is.filterMap (exitAt isVisited p)).foldl (betterExit counters) (min, best)).2) := by
  induction is generalizing counters min best with
  | nil =>
      rw [if_neg nofun]
      rfl
  | cons i is ih =>
      cases hexit : exitAt isVisited p i with
      | none =>
          rw [List.filterMap_cons_none hexit] at honce ⊢
          rw [scanMoves_skip hexit, ih counters min best honce]
      | some q =>
          rw [List.filterMap_cons_some hexit] at honce ⊢
          obtain ⟨hnot, honce⟩ := List.nodup_cons.mp honce
          rw [scanMoves_exit hexit]
          by_cases hlow : counters q - 1 < intMin
          · rw [if_pos hlow, if_pos ⟨q, List.mem_cons_self, hlow⟩]
          · have hothers := update_others counters hnot (counters q - 1)
            have hfails : (∃ q' ∈ is.filterMap (exitAt isVisited p),
                Function.update counters q (counters q - 1) q' - 1 < intMin) ↔
                ∃ q' ∈ q :: is.filterMap (exitAt isVisited p), counters q' - 1 < intMin := by
              rw [List.exists_mem_cons_iff (fun q' => counters q' - 1 < intMin), or_iff_right hlow]
              exact exists_congr fun q' => and_congr_right fun hq' => by rw [hothers q' hq']
            rw [if_neg hlow, List.foldl_cons]
            obtain ⟨min', best'⟩ := betterExit counters (min, best) q
            dsimp only
            rw [ih _ min' best' honce, lower_update hnot, foldl_betterExit_congr _ _ hothers]
            by_cases hbad : ∃ q' ∈ q :: is.filterMap (exitAt isVisited p), counters q' - 1 < intMin
            · rw [if_pos (hfails.mpr hbad), if_pos hbad]
            · rw [if_neg (mt hfails.mp hbad), if_neg hbad]

/-! ## One call -/

theorem foldl_betterExit_mem (counters : Square → Int) (qs : List Square) (s : Int × Option Square)
    (h : (qs.foldl (betterExit counters) s).2 = some q) : q ∈ qs ∨ s.2 = some q := by
  induction qs generalizing s with
  | nil => exact .inr h
  | cons q' qs ih =>
      rcases ih _ h with hmem | hstart
      · exact .inl (List.mem_cons_of_mem q' hmem)
      · rw [betterExit] at hstart
        split at hstart
        · obtain rfl := Option.some.inj hstart
          exact .inl List.mem_cons_self
        · exact .inr hstart

/-- The exit that the loop takes. -/
def taken (counters : Square → Int) (qs : List Square) : Option Square :=
  (qs.foldl (betterExit counters) (9, none)).2

theorem taken_mem {qs : List Square} (h : taken counters qs = some q) : q ∈ qs :=
  (foldl_betterExit_mem counters qs (9, none) h).resolve_right nofun

/-- **What a call does**, where squares are left and no counter is the smallest `int`. -/
theorem warnsdorffCall_eq {room : Nat} (hroom : Room vector xs (room + 1)) (hleft : visit isVisited p ≠ allBitsOn)
    (hcounters : ∀ q ∈ exits (visit isVisited p) p, intMin < counters q) :
    ∃ vector', Room vector' (xs ++ [(p.val : Int)]) room ∧
      warnsdorffCall ⟨withCounters counters, vector, isVisited, p.val⟩ =
        some (match taken counters (exits (visit isVisited p) p) with
          | some q =>
              .next ⟨withCounters (lower counters (exits (visit isVisited p) p)), vector', visit isVisited p, q.val⟩
          | none => .done (withCounters (lower counters (exits (visit isVisited p) p))) vector' 0) := by
  obtain ⟨vector', hpush, hroom'⟩ := hroom.pushBack (p.val : Int) .block
  refine ⟨vector', hroom', ?_⟩
  have hlow : ¬ ∃ q ∈ exits (visit isVisited p) p, counters q - 1 < intMin := by
    rintro ⟨q, hq, hless⟩
    have hmore := hcounters q hq
    omega
  have hscan := scanMoves_eq (List.finRange 8) counters 9 none (exits_nodup (visit isVisited p) p)
  rw [← exits, if_neg hlow] at hscan
  rw [warnsdorffCall, bitsArrSetBit_square]
  simp only [Option.bind_eq_bind, Option.bind_some, hpush, if_neg hleft]
  show (scanMoves (visit isVisited p) p.val (List.finRange 8) (withCounters counters) 9 (minIndexOf p none)).bind _ = _
  rw [hscan, Option.bind_some]
  show (if minIndexOf p (taken counters (exits (visit isVisited p) p)) = 0 then _ else _) = _
  cases htaken : taken counters (exits (visit isVisited p) p) with
  | none => exact if_pos rfl
  | some q =>
      have hne : minIndexOf p (some q) ≠ 0 := by
        have hknight := (mem_exits.mp (taken_mem htaken)).1
        unfold KnightMove KnightStep Square.row Square.col at hknight
        show (q.val : Int) - p.val ≠ 0
        omega
      have hindex : (p.val : Int) + minIndexOf p (some q) = q.val := by
        show (p.val : Int) + (q.val - p.val) = q.val
        omega
      rw [if_neg hne]
      show some (Outcome.next ⟨_, vector', _, (p.val : Int) + minIndexOf p (taken counters _)⟩) = _
      rw [htaken, hindex]

/-- A counter is the smallest `int`. -/
theorem warnsdorffCall_eq_none {room : Nat} (hroom : Room vector xs (room + 1)) (hleft : visit isVisited p ≠ allBitsOn)
    (hlow : ¬ ∀ q ∈ exits (visit isVisited p) p, intMin < counters q) :
    warnsdorffCall ⟨withCounters counters, vector, isVisited, p.val⟩ = none := by
  obtain ⟨vector', hpush, -⟩ := hroom.pushBack (p.val : Int) .block
  have hfails : ∃ q ∈ exits (visit isVisited p) p, counters q - 1 < intMin := by
    simp only [not_forall, Int.not_lt] at hlow
    obtain ⟨q, hq, hle⟩ := hlow
    exact ⟨q, hq, by omega⟩
  have hscan := scanMoves_eq (List.finRange 8) counters 9 none (exits_nodup (visit isVisited p) p)
  rw [← exits, if_pos hfails] at hscan
  rw [warnsdorffCall, bitsArrSetBit_square]
  simp only [Option.bind_eq_bind, Option.bind_some, hpush, if_neg hleft]
  show (scanMoves (visit isVisited p) p.val (List.finRange 8) (withCounters counters) 9 (minIndexOf p none)).bind _ = _
  rw [hscan, Option.bind_none]

/-- All squares are visited. -/
theorem warnsdorffCall_all {room : Nat} (counters : Square → Int) (hroom : Room vector xs (room + 1))
    (hall : visit isVisited p = allBitsOn) :
    ∃ vector', warnsdorffCall ⟨withCounters counters, vector, isVisited, p.val⟩ =
      some (.done (withCounters counters) vector' allBitsOn) := by
  obtain ⟨vector', hpush, -⟩ := hroom.pushBack (p.val : Int) .block
  refine ⟨vector', ?_⟩
  rw [warnsdorffCall, bitsArrSetBit_square]
  simp only [Option.bind_eq_bind, Option.bind_some, hpush, if_pos hall, Option.pure_def]

section

variable {lut lut' : Lut} {vector' : Path} {result : BitArray} {call' : Call}

end

/-- The calls of a walk. -/
def walk (start : Call) : System Call Unit where
  init call := call = start
  step call _ call' := warnsdorffCall call = some (.next call')

/-- The knight is on a square that is not visited, and the vector has room for those that are left. -/
def Walking (call : Call) : Prop :=
  ∃ (counters : Square → Int) (p : Square) (xs : List Int), call.lut = withCounters counters ∧ call.index = p.val ∧
    ¬ Visited call.isVisited p ∧ Room call.vector xs (squaresLeft call.isVisited)

variable {call call' start : Call}

theorem Walking.next (h : Walking call) (hnext : warnsdorffCall call = some (.next call')) :
    Walking call' ∧ squaresLeft call'.isVisited + 1 = squaresLeft call.isVisited := by
  obtain ⟨lut, vector, isVisited, index⟩ := call
  obtain ⟨counters, p, xs, hlut, hindex, hp, hroom⟩ := h
  dsimp only at hlut hindex hp hroom
  subst hlut hindex
  have hleft := squaresLeft_visit hp
  rw [← hleft] at hroom
  by_cases hall : visit isVisited p = allBitsOn
  · obtain ⟨vector', hcall⟩ := warnsdorffCall_all counters hroom hall
    rw [hcall] at hnext
    cases hnext
  · by_cases hcounters : ∀ q ∈ exits (visit isVisited p) p, intMin < counters q
    · obtain ⟨vector', hroom', hcall⟩ := warnsdorffCall_eq hroom hall hcounters
      rw [hcall] at hnext
      cases htaken : taken counters (exits (visit isVisited p) p) with
      | none =>
          rw [htaken] at hnext
          cases hnext
      | some q =>
          rw [htaken] at hnext
          cases hnext
          exact ⟨⟨_, q, _, rfl, rfl, (mem_exits.mp (taken_mem htaken)).2, hroom'⟩, hleft⟩
    · rw [warnsdorffCall_eq_none hroom hall hcounters] at hnext
      cases hnext

/-- The last square. -/
theorem walk_all {room : Nat} (hroom : Room vector xs (room + 1)) (hall : visit isVisited p = allBitsOn)
    (h : (walk ⟨withCounters counters, vector, isVisited, p.val⟩).Reachable System.Any call) :
    call = ⟨withCounters counters, vector, isVisited, p.val⟩ := by
  obtain ⟨vector', hcall⟩ := warnsdorffCall_all counters hroom hall
  induction h with
  | init h => exact h
  | step _ _ hnext ih =>
      subst ih
      cases hcall.symm.trans hnext

end Workbench.Knight
