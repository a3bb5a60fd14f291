import Mathlib.Data.Finset.Card
import Mathlib.Data.Fintype.Card
import Mathlib.Order.Lattice

/-!
# `Games.TicTacToe` — `ai_tictactoe.cpp`

The AI has the first move, and looks at all games from a board on. When a move that is entered is not valid, the AI
moves once more.

## Contents
* `evaluate`, `minimax`, `findBestMove`, `play` — the program;
* `evaluate_place`, `evaluate_swap` — a mark more, and the marks of the other player;
* `minimax_true`, `minimax_false` — the value of a board is that of the best next one;
* `minimax_place` — a mark of the AI more is never worse for it;
* `never_loses` — whatever is entered, the game comes to its end, and the AI does not lose it.
-/

namespace Workbench.TicTacToe

/-! ## The program -/

/-- `EMPTY`, `HUMAN` and `AI`. -/
inductive Cell
  | empty
  | human
  | ai
  deriving DecidableEq

/-- The cells 0 to 8. -/
abbrev Board := Nat → Cell

def place (board : Board) (i : Nat) (c : Cell) : Board := Function.update board i c

def isMovesLeft (board : Board) : Bool := (List.finRange 9).any fun (i : Fin 9) => board i = .empty

/-- Three equal cells have a winner, if they are not empty. -/
def cellScore (x y z : Cell) : Option Int :=
  if x = y ∧ y = z then
    if x = .ai then some 10 else if x = .human then some (-10) else none
  else none

def lineScore (b : Board) : Nat × Nat × Nat → Option Int
  | (x, y, z) => cellScore (b x) (b y) (b z)

/-- The rows, the columns and the diagonals, in the order in which they are looked at. -/
def lines : List (Nat × Nat × Nat) :=
  (List.range 3).map (fun row => (row * 3, row * 3 + 1, row * 3 + 2)) ++
    (List.range 3).map (fun col => (col, col + 3, col + 6)) ++ [(0, 4, 8), (2, 4, 6)]

/-- The first line that has a winner. -/
def evaluate (b : Board) : Int := (lines.findSome? (lineScore b)).getD 0

/-- `numeric_limits<int>`. -/
def intMin : Int := -2147483648

def intMax : Int := 2147483647

/-- The cells that are empty. -/
def empties (board : Board) : Nat := (Finset.univ.filter fun i : Fin 9 => board i = .empty).card

variable {b : Board} {i j : Nat} {c : Cell}

theorem place_self (b : Board) (i : Nat) (c : Cell) : place b i c i = c := Function.update_self ..

theorem place_of_ne (c : Cell) (h : j ≠ i) : place b i c j = b j := Function.update_of_ne h ..

/-- A mark more is an empty cell less. -/
theorem empties_place (hi : i < 9) (hb : b i = .empty) (hc : c ≠ .empty) :
    empties (place b i c) + 1 = empties b := by
  have hmem : (⟨i, hi⟩ : Fin 9) ∈ Finset.univ.filter fun i : Fin 9 => b i = .empty :=
    Finset.mem_filter.mpr ⟨Finset.mem_univ _, hb⟩
  have herase : (Finset.univ.filter fun j : Fin 9 => place b i c j = .empty) =
      (Finset.univ.filter fun j : Fin 9 => b j = .empty).erase ⟨i, hi⟩ := by
    ext j
    simp only [Finset.mem_filter, Finset.mem_univ, true_and, Finset.mem_erase]
    by_cases hj : j.val = i
    · have heq : j = ⟨i, hi⟩ := Fin.ext hj
      rw [hj, place_self]
      simp [hc, heq]
    · have hne : j ≠ ⟨i, hi⟩ := fun heq => hj (congrArg Fin.val heq)
      rw [place_of_ne c hj]
      simp [hne]
  rw [empties, herase]
  exact Finset.card_erase_add_one hmem

/-- The parameter `depth` is not read. -/
def minimax (board : Board) (isMax : Bool) : Int :=
  let score := evaluate board
  if score = 10 ∨ score = -10 then score
  else if isMovesLeft board = false then 0
  else if isMax then
    (List.finRange 9).foldl (fun best (i : Fin 9) =>
      if _h : board i = .empty then max best (minimax (place board i .ai) false) else best) intMin
  else
    (List.finRange 9).foldl (fun best (i : Fin 9) =>
      if _h : board i = .empty then min best (minimax (place board i .human) true) else best) intMax
termination_by empties board
decreasing_by
  · exact Nat.lt_of_succ_le (empties_place (c := .ai) i.isLt _h (by decide)).le
  · exact Nat.lt_of_succ_le (empties_place (c := .human) i.isLt _h (by decide)).le

/-- The move, and its value. No move is the index -1. -/
def findBestMove (board : Board) : Option (Fin 9) :=
  ((List.finRange 9).foldl (fun (best : Int × Option (Fin 9)) (i : Fin 9) =>
    if board i = .empty then
      let moveVal := minimax (place board i .ai) false
      if best.1 < moveVal then (moveVal, some i) else best
    else best) (intMin, none)).2

inductive Outcome
  | aiWins
  | youWin
  | draw
  deriving DecidableEq

/-- The game. `moves` has what is entered, and the loop has fuel. -/
def play (moves : Nat → Int) : Nat → Nat → Board → Option Outcome
  | 0, _, _ => none
  | fuel + 1, t, board => do
      let aiMove ← findBestMove board
      let board := place board aiMove .ai
      if evaluate board = 10 then return .aiWins
      else if isMovesLeft board = false then return .draw
      else
        let move := moves t - 1
        if move < 0 ∨ 9 ≤ move ∨ board move.toNat ≠ .empty then play moves fuel (t + 1) board
        else
          let board := place board move.toNat .human
          if evaluate board = -10 then return .youWin
          else if isMovesLeft board = false then return .draw
          else play moves fuel (t + 1) board

def start : Board := fun _ => .empty

/-! ## Evaluation -/

/-- The marks of the other player. -/
def Cell.swap : Cell → Cell
  | empty => empty
  | human => ai
  | ai => human

def swap (b : Board) : Board := fun i => (b i).swap

theorem Cell.swap_inj {c d : Cell} : c.swap = d.swap ↔ c = d := by cases c <;> cases d <;> decide

theorem swap_place (b : Board) (i : Nat) (c : Cell) : swap (place b i c) = place (swap b) i c.swap := by
  funext j
  by_cases hj : j = i
  · subst hj
    rw [swap, place_self, place_self]
  · rw [swap, place_of_ne c hj, place_of_ne _ hj, swap]

theorem cellScore_cases (x y z : Cell) :
    cellScore x y z = none ∨ cellScore x y z = some 10 ∨ cellScore x y z = some (-10) := by
  cases x <;> cases y <;> cases z <;> decide

theorem cellScore_swap (x y z : Cell) : cellScore x.swap y.swap z.swap = (cellScore x y z).map Neg.neg := by
  cases x <;> cases y <;> cases z <;> decide

/-- The cell is the same, or it was empty and has a mark of the AI. -/
def Grows (x x' : Cell) : Prop := x' = x ∨ x = .empty ∧ x' = .ai

/-- Three cells that have a winner keep it, and others may have the AI as the winner then. -/
theorem cellScore_grows {x x' y y' z z' : Cell} (hx : Grows x x') (hy : Grows y y') (hz : Grows z z') :
    cellScore x' y' z' = cellScore x y z ∨ cellScore x y z = none ∧ cellScore x' y' z' = some 10 := by
  rcases hx with rfl | ⟨rfl, rfl⟩ <;> rcases hy with rfl | ⟨rfl, rfl⟩ <;> rcases hz with rfl | ⟨rfl, rfl⟩
  · exact .inl rfl
  · cases x' <;> cases y' <;> decide
  · cases x' <;> cases z' <;> decide
  · cases x' <;> decide
  · cases y' <;> cases z' <;> decide
  · cases y' <;> decide
  · cases z' <;> decide
  · decide

theorem grows_place (hb : b j = .empty) (x : Nat) : Grows (b x) (place b j .ai x) := by
  by_cases hx : x = j
  · subst hx
    exact .inr ⟨hb, place_self b x .ai⟩
  · exact .inl (place_of_ne .ai hx)

/-- The first line of some lines that has a winner. -/
def score (ls : List (Nat × Nat × Nat)) (b : Board) : Int := (ls.findSome? (lineScore b)).getD 0

theorem score_cases (ls : List (Nat × Nat × Nat)) (b : Board) :
    score ls b = 0 ∨ score ls b = 10 ∨ score ls b = -10 := by
  induction ls with
  | nil => exact .inl rfl
  | cons l ls ih =>
      rw [score, List.findSome?_cons]
      rcases cellScore_cases (b l.1) (b l.2.1) (b l.2.2) with h | h | h <;> rw [lineScore, h]
      · exact ih
      · exact .inr (.inl rfl)
      · exact .inr (.inr rfl)

theorem score_swap (ls : List (Nat × Nat × Nat)) (b : Board) : score ls (swap b) = -score ls b := by
  induction ls with
  | nil => rfl
  | cons l ls ih =>
      rw [score, score, List.findSome?_cons, List.findSome?_cons, lineScore, swap, swap, swap, cellScore_swap]
      rcases cellScore_cases (b l.1) (b l.2.1) (b l.2.2) with h | h | h <;> rw [lineScore, h]
      · exact ih
      · rfl
      · rfl

theorem score_place (ls : List (Nat × Nat × Nat)) (hb : b j = .empty) : score ls b ≤ score ls (place b j .ai) := by
  induction ls with
  | nil => exact Int.le_refl 0
  | cons l ls ih =>
      rcases cellScore_grows (grows_place hb l.1) (grows_place hb l.2.1) (grows_place hb l.2.2) with h | ⟨hnone, hten⟩
      · rw [score, score, List.findSome?_cons, List.findSome?_cons, lineScore, lineScore, h]
        cases cellScore (b l.1) (b l.2.1) (b l.2.2) with
        | none => exact ih
        | some v => exact Int.le_refl v
      · have hle := score_cases (l :: ls) b
        have hscore : score (l :: ls) (place b j .ai) = 10 := by
          rw [score, List.findSome?_cons, lineScore, hten]
          rfl
        omega

theorem evaluate_cases (b : Board) : evaluate b = 0 ∨ evaluate b = 10 ∨ evaluate b = -10 := score_cases lines b

theorem evaluate_swap (b : Board) : evaluate (swap b) = -evaluate b := score_swap lines b

/-- A mark of the AI more is not worse for it. -/
theorem evaluate_ai (hb : b j = .empty) : evaluate b ≤ evaluate (place b j .ai) := score_place lines hb

/-- A mark of the human more is not better for the AI. -/
theorem evaluate_human (hb : b j = .empty) : evaluate (place b j .human) ≤ evaluate b := by
  have hswap : swap b j = .empty := by rw [swap, hb]; rfl
  have hle := evaluate_ai hswap
  rw [show place (swap b) j .ai = swap (place b j .human) from (swap_place b j .human).symm, evaluate_swap,
    evaluate_swap] at hle
  omega

/-! ## The value of a board -/

/-- The turns of a loop that looks for the greatest value of those that it may take. -/
theorem foldl_best {α ι : Type} [LinearOrder α] (l : List ι) (p : ι → Prop) [DecidablePred p] (v : ι → α) (best : α) :
    let r := l.foldl (fun best i => if p i then max best (v i) else best) best
    best ≤ r ∧ (∀ i ∈ l, p i → v i ≤ r) ∧ (r = best ∨ ∃ i ∈ l, p i ∧ r = v i) := by
  induction l generalizing best with
  | nil => exact ⟨le_refl best, nofun, .inl rfl⟩
  | cons i l ih =>
      rw [List.foldl_cons]
      obtain ⟨hbest, hall, hone⟩ := ih (if p i then max best (v i) else best)
      by_cases hi : p i
      · rw [if_pos hi] at hbest hall hone ⊢
        refine ⟨(le_max_left _ _).trans hbest, fun j hj hpj => ?_, ?_⟩
        · rcases List.mem_cons.mp hj with rfl | hj
          · exact (le_max_right _ _).trans hbest
          · exact hall j hj hpj
        · rcases hone with hsame | ⟨j, hj, hpj, heq⟩
          · rcases max_choice best (v i) with hmax | hmax
            · exact .inl (hsame.trans hmax)
            · exact .inr ⟨i, List.mem_cons_self, hi, hsame.trans hmax⟩
          · exact .inr ⟨j, List.mem_cons_of_mem _ hj, hpj, heq⟩
      · rw [if_neg hi] at hbest hall hone ⊢
        refine ⟨hbest, fun j hj hpj => ?_, ?_⟩
        · rcases List.mem_cons.mp hj with rfl | hj
          · exact absurd hpj hi
          · exact hall j hj hpj
        · rcases hone with hsame | ⟨j, hj, hpj, heq⟩
          · exact .inl hsame
          · exact .inr ⟨j, List.mem_cons_of_mem _ hj, hpj, heq⟩

theorem exists_empty (hb : isMovesLeft b = true) : ∃ i < 9, b i = .empty := by
  obtain ⟨i, -, hi⟩ := List.any_eq_true.mp hb
  exact ⟨i, i.isLt, of_decide_eq_true hi⟩

theorem movesLeft_of_empty (hi : i < 9) (hb : b i = .empty) : isMovesLeft b = true :=
  List.any_eq_true.mpr ⟨⟨i, hi⟩, List.mem_finRange _, decide_eq_true hb⟩

/-- The board is not decided, and there is a move. -/
def Open (b : Board) : Prop := evaluate b = 0 ∧ isMovesLeft b = true

theorem minimax_won (h : evaluate b ≠ 0) (isMax : Bool) : minimax b isMax = evaluate b := by
  rw [minimax]
  rcases evaluate_cases b with hb | hb | hb
  · exact absurd hb h
  · rw [if_pos (.inl hb)]
  · rw [if_pos (.inr hb)]

theorem minimax_full (h : evaluate b = 0) (hfull : isMovesLeft b = false) (isMax : Bool) : minimax b isMax = 0 := by
  rw [minimax]
  simp [h, hfull]

/-- The loop of the AI: the value is the greatest of the next boards, if they are in bounds. -/
theorem minimax_ai (h : Open b) (hbounds : ∀ i < 9, b i = .empty → intMin < minimax (place b i .ai) false) :
    (∀ i < 9, b i = .empty → minimax (place b i .ai) false ≤ minimax b true) ∧
      ∃ i < 9, b i = .empty ∧ minimax b true = minimax (place b i .ai) false := by
  obtain ⟨-, hall, hone⟩ := foldl_best (List.finRange 9) (fun i : Fin 9 => b i = .empty)
    (fun i => minimax (place b i .ai) false) intMin
  have hunfold : minimax b true = (List.finRange 9).foldl
      (fun best (i : Fin 9) => if b i = .empty then max best (minimax (place b i .ai) false) else best) intMin := by
    rw [minimax]
    simp [h.1, h.2]
  rw [← hunfold] at hall hone
  have hall' : ∀ i < 9, b i = .empty → minimax (place b i .ai) false ≤ minimax b true := fun i hi hb =>
    hall ⟨i, hi⟩ (List.mem_finRange _) hb
  refine ⟨hall', ?_⟩
  rcases hone with hmin | ⟨i, -, hb, heq⟩
  · obtain ⟨i, hi, hb⟩ := exists_empty h.2
    have hlt := hbounds i hi hb
    have hle := hall' i hi hb
    omega
  · exact ⟨i, i.isLt, hb, heq⟩

/-- The loop of the human. -/
theorem minimax_human (h : Open b) (hbounds : ∀ i < 9, b i = .empty → minimax (place b i .human) true < intMax) :
    (∀ i < 9, b i = .empty → minimax b false ≤ minimax (place b i .human) true) ∧
      ∃ i < 9, b i = .empty ∧ minimax b false = minimax (place b i .human) true := by
  -- the least value is the greatest one in the other order
  obtain ⟨-, hall, hone⟩ := foldl_best (α := Intᵒᵈ) (List.finRange 9) (fun i : Fin 9 => b i = .empty)
    (fun i => minimax (place b i .human) true) intMax
  have hunfold : minimax b false = (List.finRange 9).foldl
      (fun best (i : Fin 9) => if b i = .empty then min best (minimax (place b i .human) true) else best) intMax := by
    rw [minimax]
    simp [h.1, h.2]
  have hall' : ∀ i < 9, b i = .empty → minimax b false ≤ minimax (place b i .human) true := fun i hi hb => by
    rw [hunfold]
    exact hall ⟨i, hi⟩ (List.mem_finRange _) hb
  refine ⟨hall', ?_⟩
  rcases hone with hmax | ⟨i, -, hb, heq⟩
  · obtain ⟨i, hi, hb⟩ := exists_empty h.2
    have hlt := hbounds i hi hb
    have hle := hall' i hi hb
    have heq : minimax b false = intMax := hunfold.trans hmax
    omega
  · exact ⟨i, i.isLt, hb, hunfold.trans heq⟩

theorem minimax_bounds (b : Board) (isMax : Bool) : -10 ≤ minimax b isMax ∧ minimax b isMax ≤ 10 := by
  induction hn : empties b using Nat.strongRecOn generalizing b isMax with
  | _ n ih =>
      subst hn
      have hnext : ∀ i < 9, b i = .empty → ∀ c, c ≠ .empty → ∀ p,
          -10 ≤ minimax (place b i c) p ∧ minimax (place b i c) p ≤ 10 := fun i hi hb c hc p =>
        ih _ (Nat.lt_of_succ_le (empties_place hi hb hc).le) _ p rfl
      by_cases hzero : evaluate b = 0
      · by_cases hleft : isMovesLeft b = true
        · cases isMax with
          | true =>
              obtain ⟨-, i, hi, hb, heq⟩ := minimax_ai ⟨hzero, hleft⟩ fun i hi hb =>
                lt_of_lt_of_le (by decide) (hnext i hi hb .ai nofun false).1
              rw [heq]
              exact hnext i hi hb .ai nofun false
          | false =>
              obtain ⟨-, i, hi, hb, heq⟩ := minimax_human ⟨hzero, hleft⟩ fun i hi hb =>
                lt_of_le_of_lt (hnext i hi hb .human nofun true).2 (by decide)
              rw [heq]
              exact hnext i hi hb .human nofun true
        · rw [minimax_full hzero (Bool.eq_false_iff.mpr hleft)]
          decide
      · rw [minimax_won hzero]
        rcases evaluate_cases b with hb | hb | hb <;> rw [hb] <;> decide

/-- **The turn of the AI**: the value is the greatest of the next boards. -/
theorem minimax_true (h : Open b) :
    (∀ i < 9, b i = .empty → minimax (place b i .ai) false ≤ minimax b true) ∧
      ∃ i < 9, b i = .empty ∧ minimax b true = minimax (place b i .ai) false :=
  minimax_ai h fun i _ _ => lt_of_lt_of_le (by decide) (minimax_bounds (place b i .ai) false).1

/-- **The turn of the human**: the value is the least of the next boards. -/
theorem minimax_false (h : Open b) :
    (∀ i < 9, b i = .empty → minimax b false ≤ minimax (place b i .human) true) ∧
      ∃ i < 9, b i = .empty ∧ minimax b false = minimax (place b i .human) true :=
  minimax_human h fun i _ _ => lt_of_le_of_lt (minimax_bounds (place b i .human) true).2 (by decide)

/-! ## A mark more -/

theorem place_comm (b : Board) (h : i ≠ j) (c d : Cell) :
    place (place b i c) j d = place (place b j d) i c := by
  unfold place
  exact Function.update_comm h c d b

/-- A board that lacks one cell only, where the AI may put its mark. -/
theorem minimax_last (hzero : evaluate b = 0) (hj : j < 9) (hb : b j = .empty)
    (hai : evaluate (place b j .ai) = 0) (hfull : isMovesLeft (place b j .ai) = false) (isMax : Bool) :
    minimax b isMax ≤ 0 := by
  have hopen : Open b := ⟨hzero, movesLeft_of_empty hj hb⟩
  have honly : ∀ i < 9, b i = .empty → i = j := by
    intro i hi hbi
    by_contra hne
    have hleft := movesLeft_of_empty hi ((place_of_ne .ai hne).trans hbi)
    rw [hfull] at hleft
    cases hleft
  cases isMax with
  | true =>
      obtain ⟨-, i, hi, hbi, heq⟩ := minimax_true hopen
      obtain rfl := honly i hi hbi
      rw [heq, minimax_full hai hfull]
  | false =>
      refine ((minimax_false hopen).1 j hj hb).trans ?_
      have hle := evaluate_human hb
      by_cases hhuman : evaluate (place b j .human) = 0
      · have hfull' : isMovesLeft (place b j .human) = false := by
          refine Bool.eq_false_iff.mpr fun hleft => ?_
          obtain ⟨i, hi, hbi⟩ := exists_empty hleft
          by_cases hne : i = j
          · subst hne
            rw [place_self] at hbi
            cases hbi
          · rw [place_of_ne .human hne] at hbi
            exact hne (honly i hi hbi)
        rw [minimax_full hhuman hfull']
      · rw [minimax_won hhuman]
        omega

/-- **A mark of the AI more is not worse for it**, and so it is not worse to have the turn. -/
theorem minimax_place (b : Board) :
    (∀ j < 9, b j = .empty → ∀ isMax, minimax b isMax ≤ minimax (place b j .ai) isMax) ∧
      (Open b → minimax b false ≤ minimax b true) := by
  induction hn : empties b using Nat.strongRecOn generalizing b with
  | _ n ih =>
      subst hn
      have hnext : ∀ i < 9, b i = .empty → ∀ c, c ≠ .empty → empties (place b i c) < empties b := fun i hi hb c hc =>
        Nat.lt_of_succ_le (empties_place hi hb hc).le
      have hplace : ∀ j < 9, b j = .empty → ∀ isMax, minimax b isMax ≤ minimax (place b j .ai) isMax := by
        intro j hj hb isMax
        have hgrows := evaluate_ai hb
        have hbounds := minimax_bounds (place b j .ai) isMax
        by_cases hzero : evaluate b = 0
        · by_cases hai : evaluate (place b j .ai) = 0
          · by_cases hleft : isMovesLeft (place b j .ai) = true
            · have hopen : Open b := ⟨hzero, movesLeft_of_empty hj hb⟩
              have hopen' : Open (place b j .ai) := ⟨hai, hleft⟩
              cases isMax with
              | true =>
                  obtain ⟨-, i, hi, hbi, heq⟩ := minimax_true hopen
                  rw [heq]
                  by_cases hne : i = j
                  · subst hne
                    exact (ih _ (hnext i hi hbi .ai nofun) _ rfl).2 hopen'
                  · -- the same move after the mark
                    have hbj : place b i .ai j = .empty := (place_of_ne .ai (Ne.symm hne)).trans hb
                    have hbi' : place b j .ai i = .empty := (place_of_ne .ai hne).trans hbi
                    have hle := (ih _ (hnext i hi hbi .ai nofun) _ rfl).1 j hj hbj false
                    rw [place_comm b hne] at hle
                    exact hle.trans ((minimax_true hopen').1 i hi hbi')
              | false =>
                  obtain ⟨-, i, hi, hbi', heq⟩ := minimax_false hopen'
                  have hne : i ≠ j := by
                    rintro rfl
                    rw [place_self] at hbi'
                    cases hbi'
                  have hbi : b i = .empty := (place_of_ne .ai hne).symm.trans hbi'
                  have hbj : place b i .human j = .empty := (place_of_ne .human (Ne.symm hne)).trans hb
                  have hle := (ih _ (hnext i hi hbi .human nofun) _ rfl).1 j hj hbj true
                  rw [place_comm b hne] at hle
                  rw [heq]
                  exact ((minimax_false hopen).1 i hi hbi).trans hle
            · rw [minimax_full hai (Bool.eq_false_iff.mpr hleft)]
              exact minimax_last hzero hj hb hai (Bool.eq_false_iff.mpr hleft) isMax
          · rw [minimax_won hai]
            have hten := evaluate_cases (place b j .ai)
            have hle := (minimax_bounds b isMax).2
            omega
        · rw [minimax_won hzero]
          rcases evaluate_cases b with h | h | h
          · exact absurd h hzero
          · have hten := evaluate_cases (place b j .ai)
            rw [minimax_won (by omega)]
            exact hgrows
          · rw [h]
            exact hbounds.1
      refine ⟨hplace, fun hopen => ?_⟩
      obtain ⟨i, hi, hb⟩ := exists_empty hopen.2
      exact (hplace i hi hb false).trans ((minimax_true hopen).1 i hi hb)

/-! ## The other player -/

theorem swap_swap (b : Board) : swap (swap b) = b := by
  funext i
  rw [swap, swap]
  cases b i <;> rfl

theorem swap_empty : swap b i = .empty ↔ b i = .empty := by
  rw [swap]
  cases b i <;> decide

theorem empties_swap (b : Board) : empties (swap b) = empties b := by
  unfold empties
  simp only [swap_empty]

theorem movesLeft_swap (b : Board) : isMovesLeft (swap b) = isMovesLeft b := by
  unfold isMovesLeft
  simp only [swap_empty]

/-- **The same board for the other player**. -/
theorem minimax_swap (b : Board) : minimax (swap b) false = -minimax b true := by
  induction hn : empties b using Nat.strongRecOn generalizing b with
  | _ n ih =>
      subst hn
      by_cases hzero : evaluate b = 0
      · have hzero' : evaluate (swap b) = 0 := by rw [evaluate_swap, hzero]; rfl
        by_cases hleft : isMovesLeft b = true
        · have hopen : Open b := ⟨hzero, hleft⟩
          have hopen' : Open (swap b) := ⟨hzero', (movesLeft_swap b).trans hleft⟩
          -- a move on the one board, and the same move on the other
          have hnext : ∀ i < 9, b i = .empty →
              minimax (place (swap b) i .human) true = -minimax (place b i .ai) false := by
            intro i hi hb
            have hless : empties (swap (place b i .ai)) < empties b := by
              rw [empties_swap]
              exact Nat.lt_of_succ_le (empties_place (c := .ai) hi hb nofun).le
            have hswap := ih _ hless _ rfl
            rw [swap_swap] at hswap
            rw [show place (swap b) i .human = swap (place b i .ai) from (swap_place b i .ai).symm, hswap, Int.neg_neg]
          obtain ⟨hall, i, hi, hb, heq⟩ := minimax_true hopen
          obtain ⟨hall', i', hi', hb', heq'⟩ := minimax_false hopen'
          have hle := hall i' hi' (swap_empty.mp hb')
          have hle' := hall' i hi (swap_empty.mpr hb)
          rw [hnext i' hi' (swap_empty.mp hb')] at heq'
          rw [hnext i hi hb] at hle'
          omega
        · have hfull := Bool.eq_false_iff.mpr hleft
          rw [minimax_full hzero' ((movesLeft_swap b).trans hfull), minimax_full hzero hfull]
          rfl
      · have hzero' : evaluate (swap b) ≠ 0 := by
          rw [evaluate_swap]
          omega
        rw [minimax_won hzero', minimax_won hzero, evaluate_swap]

/-! ## The game -/

/-- The turns of the loop that keeps the move with its value. -/
theorem foldl_bestMove {ι : Type} (l : List ι) (p : ι → Prop) [DecidablePred p] (v : ι → Int)
    (best : Int × Option ι) :
    let r := l.foldl (fun (best : Int × Option ι) i =>
      if p i then if best.1 < v i then (v i, some i) else best else best) best
    best.1 ≤ r.1 ∧ (∀ i ∈ l, p i → v i ≤ r.1) ∧ (r = best ∨ ∃ i ∈ l, p i ∧ r = (v i, some i)) := by
  induction l generalizing best with
  | nil => exact ⟨le_refl best.1, nofun, .inl rfl⟩
  | cons i l ih =>
      rw [List.foldl_cons]
      by_cases hi : p i ∧ best.1 < v i
      · rw [if_pos hi.1, if_pos hi.2]
        obtain ⟨hbest, hall, hone⟩ := ih (v i, some i)
        refine ⟨hi.2.le.trans hbest, fun j hj hpj => ?_, ?_⟩
        · rcases List.mem_cons.mp hj with rfl | hj
          · exact hbest
          · exact hall j hj hpj
        · rcases hone with hsame | ⟨j, hj, hpj, heq⟩
          · exact .inr ⟨i, List.mem_cons_self, hi.1, hsame⟩
          · exact .inr ⟨j, List.mem_cons_of_mem _ hj, hpj, heq⟩
      · have hskip : (if p i then if best.1 < v i then (v i, some i) else best else best) = best := by
          by_cases hpi : p i
          · rw [if_pos hpi, if_neg fun hlt => hi ⟨hpi, hlt⟩]
          · rw [if_neg hpi]
        rw [hskip]
        obtain ⟨hbest, hall, hone⟩ := ih best
        refine ⟨hbest, fun j hj hpj => ?_, ?_⟩
        · rcases List.mem_cons.mp hj with rfl | hj
          · exact (Int.not_lt.mp fun hlt => hi ⟨hpj, hlt⟩).trans hbest
          · exact hall j hj hpj
        · rcases hone with hsame | ⟨j, hj, hpj, heq⟩
          · exact .inl hsame
          · exact .inr ⟨j, List.mem_cons_of_mem _ hj, hpj, heq⟩

/-- **The move of the AI** is one with the value of the board. -/
theorem findBestMove_eq (h : Open b) :
    ∃ i : Fin 9, findBestMove b = some i ∧ b i = .empty ∧ minimax (place b i .ai) false = minimax b true := by
  obtain ⟨-, hall, hone⟩ := foldl_bestMove (List.finRange 9) (fun i : Fin 9 => b i = .empty)
    (fun i => minimax (place b i .ai) false) (intMin, none)
  obtain ⟨htrue, k, hk, hbk, heqk⟩ := minimax_true h
  have hle := hall ⟨k, hk⟩ (List.mem_finRange _) hbk
  rcases hone with hnone | ⟨i, -, hb, heq⟩
  · rw [hnone] at hle
    have hbounds := (minimax_bounds (place b k .ai) false).1
    exact absurd (hbounds.trans hle) (by decide)
  · refine ⟨i, congrArg Prod.snd heq, hb, ?_⟩
    have hge := htrue i i.isLt hb
    rw [heq] at hle
    rw [heqk] at hge ⊢
    exact le_antisymm hge hle

/-- A board that the AI does not lose, when it has the turn. -/
def Safe (b : Board) : Prop := Open b ∧ 0 ≤ minimax b true

/-- One turn of the loop. -/
theorem play_safe (h : Safe b) (moves : Nat → Int) (fuel t : Nat) :
    (∃ o, play moves (fuel + 1) t b = some o ∧ o ≠ .youWin) ∨
      ∃ b', Safe b' ∧ empties b' < empties b ∧ play moves (fuel + 1) t b = play moves fuel (t + 1) b' := by
  obtain ⟨hopen, hvalue⟩ := h
  obtain ⟨i, hmove, hb, heq⟩ := findBestMove_eq hopen
  have hless : empties (place b i .ai) < empties b := Nat.lt_of_succ_le (empties_place (c := .ai) i.isLt hb nofun).le
  have hunfold : play moves (fuel + 1) t b =
      if evaluate (place b i .ai) = 10 then some .aiWins
      else if isMovesLeft (place b i .ai) = false then some .draw
      else if moves t - 1 < 0 ∨ 9 ≤ moves t - 1 ∨ place b i .ai (moves t - 1).toNat ≠ .empty then
        play moves fuel (t + 1) (place b i .ai)
      else if evaluate (place (place b i .ai) (moves t - 1).toNat .human) = -10 then some .youWin
      else if isMovesLeft (place (place b i .ai) (moves t - 1).toNat .human) = false then some .draw
      else play moves fuel (t + 1) (place (place b i .ai) (moves t - 1).toNat .human) := by
    rw [play, hmove]
    rfl
  rw [← heq] at hvalue
  generalize hboard : place b i .ai = board at *
  rw [hunfold]
  by_cases hten : evaluate board = 10
  · exact .inl ⟨.aiWins, if_pos hten, nofun⟩
  rw [if_neg hten]
  by_cases hfull : isMovesLeft board = false
  · exact .inl ⟨.draw, if_pos hfull, nofun⟩
  rw [if_neg hfull]
  have hleft : isMovesLeft board = true := Bool.not_eq_false _ ▸ hfull
  -- a line of the human would be worth -10
  have hzero : evaluate board = 0 := by
    by_contra hne
    rw [minimax_won hne] at hvalue
    have hcases := evaluate_cases board
    omega
  have hopen' : Open board := ⟨hzero, hleft⟩
  by_cases hvalid : moves t - 1 < 0 ∨ 9 ≤ moves t - 1 ∨ board (moves t - 1).toNat ≠ .empty
  · rw [if_pos hvalid]
    exact .inr ⟨board, ⟨hopen', hvalue.trans ((minimax_place board).2 hopen')⟩, hless, rfl⟩
  rw [if_neg hvalid]
  obtain ⟨hnonneg, hvalid⟩ := not_or.mp hvalid
  obtain ⟨hlt, hempty⟩ := not_or.mp hvalid
  have hempty := not_not.mp hempty
  have hindex : (moves t - 1).toNat < 9 := by omega
  generalize (moves t - 1).toNat = move at *
  have hvalue' : 0 ≤ minimax (place board move .human) true :=
    hvalue.trans ((minimax_false hopen').1 move hindex hempty)
  have hzero' : evaluate (place board move .human) = 0 := by
    by_contra hne
    rw [minimax_won hne] at hvalue'
    have hle := evaluate_human hempty
    have hcases := evaluate_cases (place board move .human)
    omega
  rw [if_neg (by rw [hzero']; decide)]
  by_cases hfull' : isMovesLeft (place board move .human) = false
  · exact .inl ⟨.draw, if_pos hfull', nofun⟩
  rw [if_neg hfull']
  refine .inr ⟨_, ⟨⟨hzero', Bool.not_eq_false _ ▸ hfull'⟩, hvalue'⟩, ?_, rfl⟩
  have hless' := empties_place (c := .human) hindex hempty nofun
  omega

theorem play_ends (moves : Nat → Int) (fuel t : Nat) (h : Safe b) (hfuel : empties b ≤ fuel) :
    ∃ o, play moves fuel t b = some o ∧ o ≠ .youWin := by
  induction fuel generalizing t b with
  | zero =>
      obtain ⟨i, hi, hb⟩ := exists_empty h.1.2
      have hless := empties_place (c := .ai) hi hb nofun
      omega
  | succ fuel ih =>
      rcases play_safe h moves fuel t with hend | ⟨b', hb', hless, heq⟩
      · exact hend
      · rw [heq]
        exact ih (t + 1) hb' (by omega)

/-- The empty board is the same for both players, and so it is not worse to have the first move. -/
theorem start_safe : Safe start := by
  have hopen : Open start := ⟨by decide, by decide⟩
  have hswap := minimax_swap start
  rw [show swap start = start from rfl] at hswap
  have hturn := (minimax_place start).2 hopen
  exact ⟨hopen, by omega⟩

/-- **The AI does not lose**, whatever is entered: after at most nine moves of the AI the game is a draw, or won by
    it. A move that is not valid gives the AI one more turn, and this does not make it lose either. -/
theorem never_loses (moves : Nat → Int) : ∃ o, play moves 9 0 start = some o ∧ o ≠ .youWin :=
  play_ends moves 9 0 start_safe (by decide)

end Workbench.TicTacToe
