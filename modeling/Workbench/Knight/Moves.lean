import Mathlib.Data.Fintype.Basic
import Mathlib.Logic.Function.Basic

/-!
# `Knight.Moves` — the board, the table of the moves and the visited squares

A square of the board is a number below 64. The first eight rows of the table have the moves from each square, where 0
means that the knight would leave the board, and the last row has counters.

## Contents
* `initPossibleMoves` — the table;
* `KnightMove` — the moves of a knight, by rows and columns;
* `exists_move_iff` — the table has the moves of a knight;
* `bitsArrSetBit`, `bitsArrGetVal` — the visited squares as bits.
-/

namespace Workbench.Knight

abbrev Square := Fin 64

/-- `possible_moves_idx_lut`. -/
abbrev Lut := Fin 9 → Square → Int

/-- The row of the table that has counters. -/
abbrev counterRow : Fin 9 := 8

/-- How far the index, the row and the column go. -/
def moves (row : Fin 3) (moveIndex : Fin 8) : Int :=
  let moves : Vector (Vector Int 8) 3 :=
    #v[#v[-17, -10, 6, 15, 17, 10, -6, -15],
       #v[-2, -1, 1, 2, 2, 1, -1, -2],
       #v[-1, -2, -2, -1, 1, 2, 2, 1]]
  moves[row][moveIndex]

/-- `LEGIT_ROW`. -/
def legitRow (curPosIdx : Square) (moveIndex : Fin 8) : Bool :=
  let row : Int := curPosIdx.val / 8 + moves 1 moveIndex
  decide (0 ≤ row) && decide (8 > row)

/-- `LEGIT_COL`. -/
def legitCol (curPosIdx : Square) (moveIndex : Fin 8) : Bool :=
  let col : Int := curPosIdx.val % 8 + moves 2 moveIndex
  decide (0 ≤ col) && decide (8 > col)

def writeLut (lut : Lut) (row : Fin 9) (square : Square) (value : Int) : Lut :=
  Function.update lut row (Function.update (lut row) square value)

/-- The move is on the board. -/
def legit (curPosIdx : Square) (moveIndex : Fin 8) : Bool :=
  legitRow curPosIdx moveIndex && legitCol curPosIdx moveIndex

/-- The body of the inner loop. -/
def initMove (curPosIdx : Square) (lut : Lut) (moveIndex : Fin 8) : Lut :=
  if legit curPosIdx moveIndex then
    let lut := writeLut lut moveIndex.castSucc curPosIdx (moves 0 moveIndex)
    writeLut lut counterRow curPosIdx (lut counterRow curPosIdx + 1)
  else
    lut

def initPossibleMoves (lut : Lut) : Lut :=
  (List.finRange 64).foldl (fun lut curPosIdx => (List.finRange 8).foldl (initMove curPosIdx) lut) lut

/-- The static table is 0 before. Afterwards the last row changes. -/
def withCounters (counters : Square → Int) : Lut :=
  Function.update (initPossibleMoves fun _ _ => 0) counterRow counters

/-- `bit_array_t`. -/
abbrev BitArray := BitVec 64

def allBitsOn : BitArray := 0xFFFFFFFFFFFFFFFF

/-- `(size_t)1 << (idx-1)`, where the assertions say that an index is at most 64. -/
def bitAt (idx : Int) : Option BitArray :=
  if 1 ≤ idx ∧ idx ≤ 64 then some ((1 : BitArray) <<< (idx - 1).toNat) else none

def bitsArrSetOn (arr : BitArray) (idx : Int) : Option BitArray := (bitAt idx).map (arr ||| ·)

def bitsArrSetOff (arr : BitArray) (idx : Int) : Option BitArray := (bitAt idx).map (arr &&& ~~~ ·)

def bitsArrGetVal (arr : BitArray) (idx : Int) : Option Bool := (bitAt idx).map (arr &&& · != 0)

def bitsArrSetBit (arr : BitArray) (idx : Int) (booleanVal : Int) : Option BitArray :=
  if booleanVal = 1 then bitsArrSetOn arr idx else bitsArrSetOff arr idx

/-- An index on the board. -/
def squareAt (index : Int) : Option Square :=
  if h : 0 ≤ index ∧ index < 64 then some ⟨index.toNat, by omega⟩ else none

/-- A cell of the table. -/
def readLut (lut : Lut) (row : Fin 9) (index : Int) : Option Int := (squareAt index).map (lut row)

/-- Where a move leads to on the board. -/
def moveTo (p : Square) (moveIndex : Fin 8) : Option Square :=
  if legit p moveIndex then squareAt (p.val + moves 0 moveIndex) else none

/-! ## The table -/

variable {lut : Lut} {p q : Square} {moveIndex : Fin 8}

theorem writeLut_eq (lut : Lut) (row row' : Fin 9) (square square' : Square) (value : Int) :
    writeLut lut row square value row' square' =
      if row' = row ∧ square' = square then value else lut row' square' := by
  rw [writeLut, Function.update_apply]
  by_cases hrow : row' = row
  · subst hrow
    rw [if_pos rfl, Function.update_apply]
    by_cases hsquare : square' = square
    · rw [if_pos hsquare, if_pos ⟨rfl, hsquare⟩]
    · rw [if_neg hsquare, if_neg fun h => hsquare h.2]
  · rw [if_neg hrow, if_neg fun h => hrow h.1]

/-- One cell. -/
theorem initMove_eq (lut : Lut) (cur : Square) (i moveIndex : Fin 8) (p : Square) :
    initMove cur lut i moveIndex.castSucc p =
      if p = cur ∧ moveIndex = i ∧ legit cur i then moves 0 i else lut moveIndex.castSucc p := by
  have hrow : moveIndex.castSucc ≠ counterRow := Fin.ne_of_lt moveIndex.isLt
  rw [initMove]
  by_cases hlegit : legit cur i = true
  · rw [if_pos hlegit, writeLut_eq, if_neg fun h => hrow h.1, writeLut_eq]
    by_cases hcell : moveIndex.castSucc = i.castSucc ∧ p = cur
    · rw [if_pos hcell, if_pos ⟨hcell.2, Fin.castSucc_injective 8 hcell.1, hlegit⟩]
    · rw [if_neg hcell, if_neg fun h => hcell ⟨congrArg Fin.castSucc h.2.1, h.1⟩]
  · rw [if_neg hlegit, if_neg fun h => hlegit h.2.2]

/-- The inner loop. -/
theorem foldl_initMove (lut : Lut) (cur : Square) (is : List (Fin 8)) (moveIndex : Fin 8) (p : Square) :
    is.foldl (initMove cur) lut moveIndex.castSucc p =
      if p = cur ∧ moveIndex ∈ is ∧ legit cur moveIndex then moves 0 moveIndex else lut moveIndex.castSucc p := by
  induction is generalizing lut with
  | nil => rw [List.foldl_nil, if_neg fun h => List.not_mem_nil h.2.1]
  | cons i is ih =>
      rw [List.foldl_cons, ih, initMove_eq]
      by_cases hi : moveIndex = i
      · subst hi
        by_cases hcell : p = cur ∧ legit cur moveIndex = true
        · simp [hcell]
        · simp only [true_and, if_neg hcell]
          rw [if_neg fun h => hcell ⟨h.1, h.2.2⟩, if_neg fun h => hcell ⟨h.1, h.2.2⟩]
      · rw [if_neg (fun h : p = cur ∧ moveIndex = i ∧ _ => hi h.2.1)]
        simp only [List.mem_cons, hi, false_or]

/-- The outer loop. -/
theorem foldl_initMoves (lut : Lut) (curs : List Square) (moveIndex : Fin 8) (p : Square) :
    curs.foldl (fun lut cur => (List.finRange 8).foldl (initMove cur) lut) lut moveIndex.castSucc p =
      if p ∈ curs ∧ legit p moveIndex then moves 0 moveIndex else lut moveIndex.castSucc p := by
  induction curs generalizing lut with
  | nil => rw [List.foldl_nil, if_neg fun h => List.not_mem_nil h.1]
  | cons cur curs ih =>
      rw [List.foldl_cons, ih, foldl_initMove]
      by_cases hcur : p = cur
      · subst hcur
        by_cases hlegit : legit p moveIndex = true
        · simp [hlegit]
        · rw [if_neg fun h => hlegit h.2, if_neg fun h => hlegit h.2.2, if_neg fun h => hlegit h.2]
      · rw [if_neg (fun h : p = cur ∧ _ => hcur h.1)]
        simp only [List.mem_cons, hcur, false_or]

/-- **The table**: the moves that are on the board. -/
theorem withCounters_eq (counters : Square → Int) (moveIndex : Fin 8) (p : Square) :
    withCounters counters moveIndex.castSucc p = if legit p moveIndex then moves 0 moveIndex else 0 := by
  have hrow : moveIndex.castSucc ≠ counterRow := Fin.ne_of_lt moveIndex.isLt
  rw [withCounters, Function.update_of_ne hrow, initPossibleMoves, foldl_initMoves]
  simp only [List.mem_finRange, true_and]

theorem withCounters_last (counters : Square → Int) : withCounters counters counterRow = counters :=
  Function.update_self ..

theorem val_inj (h : (p.val : Int) = q.val) : q = p := Fin.ext (Int.ofNat_inj.mp h).symm

theorem squareAt_square (p : Square) : squareAt p.val = some p :=
  dif_pos ⟨Int.natCast_nonneg _, Int.ofNat_lt.mpr p.isLt⟩

theorem readLut_square (lut : Lut) (row : Fin 9) (p : Square) : readLut lut row p.val = some (lut row p) := by
  rw [readLut, squareAt_square, Option.map_some]

/-! ## The moves of a knight -/

def Square.row (p : Square) : Int := p.val / 8

def Square.col (p : Square) : Int := p.val % 8

/-- Two squares in one direction, and one in the other. -/
def KnightStep (rows cols : Int) : Prop :=
  rows.natAbs = 1 ∧ cols.natAbs = 2 ∨ rows.natAbs = 2 ∧ cols.natAbs = 1

/-- **A move of a knight.** -/
def KnightMove (p q : Square) : Prop := KnightStep (q.row - p.row) (q.col - p.col)

/-- The three rows of `moves` agree. -/
theorem moves_agree (moveIndex : Fin 8) :
    moves 0 moveIndex = 8 * moves 1 moveIndex + moves 2 moveIndex ∧ moves 0 moveIndex ≠ 0 ∧
      KnightStep (moves 1 moveIndex) (moves 2 moveIndex) := by
  unfold KnightStep
  revert moveIndex
  decide

/-- All steps are in `moves`. -/
theorem exists_moveIndex {rows cols : Int} (h : KnightStep rows cols) :
    ∃ moveIndex : Fin 8, moves 1 moveIndex = rows ∧ moves 2 moveIndex = cols := by
  rcases h with ⟨hrows, hcols⟩ | ⟨hrows, hcols⟩
  · rcases Int.natAbs_eq_iff.mp hrows with rfl | rfl <;> rcases Int.natAbs_eq_iff.mp hcols with rfl | rfl
    · exact ⟨5, rfl, rfl⟩
    · exact ⟨2, rfl, rfl⟩
    · exact ⟨6, rfl, rfl⟩
    · exact ⟨1, rfl, rfl⟩
  · rcases Int.natAbs_eq_iff.mp hrows with rfl | rfl <;> rcases Int.natAbs_eq_iff.mp hcols with rfl | rfl
    · exact ⟨4, rfl, rfl⟩
    · exact ⟨3, rfl, rfl⟩
    · exact ⟨7, rfl, rfl⟩
    · exact ⟨0, rfl, rfl⟩

theorem legit_iff : legit p moveIndex = true ↔
    (0 ≤ p.row + moves 1 moveIndex ∧ p.row + moves 1 moveIndex < 8) ∧
      0 ≤ p.col + moves 2 moveIndex ∧ p.col + moves 2 moveIndex < 8 := by
  simp only [legit, legitRow, legitCol, Bool.and_eq_true, decide_eq_true_eq, Square.row, Square.col, gt_iff_lt]

/-- A move that is on the board is the one of a knight. -/
theorem exists_square (h : legit p moveIndex = true) :
    ∃ q : Square, (p.val : Int) + moves 0 moveIndex = q.val ∧ KnightMove p q := by
  obtain ⟨⟨hrow, hrow'⟩, hcol, hcol'⟩ := legit_iff.mp h
  obtain ⟨hindex, -, hstep⟩ := moves_agree moveIndex
  unfold Square.row at hrow hrow'
  unfold Square.col at hcol hcol'
  refine ⟨⟨((p.val : Int) + moves 0 moveIndex).toNat, by omega⟩, ?_, ?_⟩
  · show _ = ((((p.val : Int) + moves 0 moveIndex).toNat : Nat) : Int)
    omega
  · have hrows : Square.row ⟨((p.val : Int) + moves 0 moveIndex).toNat, by omega⟩ - p.row = moves 1 moveIndex := by
      unfold Square.row
      dsimp only
      omega
    have hcols : Square.col ⟨((p.val : Int) + moves 0 moveIndex).toNat, by omega⟩ - p.col = moves 2 moveIndex := by
      unfold Square.col
      dsimp only
      omega
    rw [KnightMove, hrows, hcols]
    exact hstep

theorem moveTo_eq_some_iff :
    moveTo p moveIndex = some q ↔ legit p moveIndex = true ∧ (p.val : Int) + moves 0 moveIndex = q.val := by
  rw [moveTo]
  by_cases hlegit : legit p moveIndex = true
  · obtain ⟨q', hq', -⟩ := exists_square hlegit
    rw [if_pos hlegit, and_iff_right hlegit, hq', squareAt_square, Option.some_inj]
    exact ⟨fun h => congrArg (fun q : Square => (q.val : Int)) h, fun h => (val_inj h).symm⟩
  · rw [if_neg hlegit]
    exact iff_of_false nofun fun h => hlegit h.1

/-- A move of a knight is on the board. -/
theorem KnightMove.exists_moveIndex (h : KnightMove p q) :
    ∃ moveIndex, legit p moveIndex = true ∧ (p.val : Int) + moves 0 moveIndex = q.val := by
  obtain ⟨moveIndex, hrows, hcols⟩ := Knight.exists_moveIndex h
  have hindex := (moves_agree moveIndex).1
  refine ⟨moveIndex, legit_iff.mpr ?_, ?_⟩
  · rw [hrows, hcols]
    unfold Square.row Square.col
    omega
  · rw [hindex, hrows, hcols]
    unfold Square.row Square.col
    omega

/-- **The table has the moves of a knight.** -/
theorem exists_move_iff (counters : Square → Int) (p q : Square) :
    (∃ moveIndex : Fin 8, withCounters counters moveIndex.castSucc p ≠ 0 ∧
      (p.val : Int) + withCounters counters moveIndex.castSucc p = q.val) ↔ KnightMove p q := by
  constructor
  · rintro ⟨moveIndex, hne, heq⟩
    rw [withCounters_eq] at hne heq
    by_cases hlegit : legit p moveIndex = true
    · rw [if_pos hlegit] at heq
      obtain ⟨q', hq', hmove⟩ := exists_square hlegit
      obtain rfl : q' = q := val_inj (heq.symm.trans hq')
      exact hmove
    · rw [if_neg hlegit] at hne
      exact absurd rfl hne
  · intro h
    obtain ⟨moveIndex, hlegit, heq⟩ := h.exists_moveIndex
    refine ⟨moveIndex, ?_, ?_⟩
    · rw [withCounters_eq, if_pos hlegit]
      exact (moves_agree moveIndex).2.1
    · rw [withCounters_eq, if_pos hlegit]
      exact heq

/-! ## The visited squares -/

variable {isVisited : BitArray}

def Visited (isVisited : BitArray) (p : Square) : Prop := isVisited.getLsbD p.val = true

instance (isVisited : BitArray) (p : Square) : Decidable (Visited isVisited p) := by
  unfold Visited
  infer_instance

theorem bitAt_square (p : Square) : bitAt (p.val + 1) = some (BitVec.twoPow 64 p.val) := by
  have hlt := p.isLt
  rw [bitAt, if_pos (by omega), Int.add_sub_cancel, Int.toNat_natCast, BitVec.twoPow_eq]
  rfl

/-- The set with one more square. -/
def visit (isVisited : BitArray) (p : Square) : BitArray := isVisited ||| BitVec.twoPow 64 p.val

theorem bitsArrSetBit_square (isVisited : BitArray) (p : Square) :
    bitsArrSetBit isVisited (p.val + 1) 1 = some (visit isVisited p) := by
  rw [bitsArrSetBit, if_pos rfl, bitsArrSetOn, bitAt_square]
  rfl

theorem bitsArrGetVal_square (isVisited : BitArray) (p : Square) :
    bitsArrGetVal isVisited (p.val + 1) = some (decide (Visited isVisited p)) := by
  rw [bitsArrGetVal, bitAt_square, Option.map_some]
  refine congrArg some (Bool.eq_iff_iff.mpr ?_)
  rw [bne_iff_ne, decide_eq_true_iff, Visited]
  constructor
  · intro hne
    by_contra hbit
    refine hne (BitVec.eq_of_getLsbD_eq fun i hi => ?_)
    rw [BitVec.getLsbD_and, BitVec.getLsbD_twoPow]
    refine Eq.trans ?_ BitVec.getLsbD_zero.symm
    by_cases heq : p.val = i
    · rw [← heq, Bool.eq_false_iff.mpr hbit, Bool.false_and]
    · rw [decide_eq_false heq, Bool.and_false, Bool.and_false]
  · intro hbit hzero
    have hboth : (isVisited &&& BitVec.twoPow 64 p.val).getLsbD p.val = true := by
      rw [BitVec.getLsbD_and, BitVec.getLsbD_twoPow, hbit, decide_eq_true p.isLt, decide_eq_true rfl]
      rfl
    rw [hzero] at hboth
    cases BitVec.getLsbD_zero.symm.trans hboth

theorem visited_visit (isVisited : BitArray) (p q : Square) :
    Visited (visit isVisited p) q ↔ q = p ∨ Visited isVisited q := by
  rw [Visited, Visited, visit, BitVec.getLsbD_or, BitVec.getLsbD_twoPow, decide_eq_true p.isLt, Bool.true_and,
    Bool.or_eq_true, decide_eq_true_iff, Fin.ext_iff]
  exact ⟨fun h => h.symm.imp_left Eq.symm, fun h => h.symm.imp_right Eq.symm⟩

theorem eq_allBitsOn_iff : isVisited = allBitsOn ↔ ∀ p, Visited isVisited p := by
  have hall : allBitsOn = BitVec.allOnes 64 := rfl
  rw [hall]
  constructor
  · rintro rfl p
    rw [Visited, BitVec.getLsbD_allOnes, decide_eq_true p.isLt]
  · intro h
    refine BitVec.eq_of_getLsbD_eq fun i hi => ?_
    rw [BitVec.getLsbD_allOnes, decide_eq_true hi]
    exact h ⟨i, hi⟩

end Workbench.Knight
