import Workbench.Calc.Stack

/-!
# `Calc.Calculate` — the calculator

The text is the bytes in front of the `NUL`; a pointer into it is a position. The tables that `LutInit` fills do not
change after the first call, and are functions here. Numbers are of any type, read by `strtod` and combined by the five
operators; memory for the stacks is there.

## Contents
* `getNum`, `getOp` — the parser;
* `calcOperation`, `reduceWhile` — operators that are applied;
* `correctOperator`, `parantheses`, `endOfEx`, `notCorrectOperator` — the entries of `main_func_lut`;
* `waitForNum`, `waitForOp`, `calcLoop`, `calculate` — the states and the loop.
-/

namespace Workbench.Calculator

inductive CalcStatus
  | success
  | mathError
  | syntaxError
  | mallocError
  deriving DecidableEq

inductive State
  | waitForNum
  | waitForOp
  deriving DecidableEq

structure Calc (V : Type) where
  numStack : Stack V
  opStack : Stack Char
  mathExp : Nat
  currenState : State
  paranthesesCounter : Int

/-- `strtod`: how many bytes the number at the front takes, 0 if there is none, and its value. It stays in the text, and
    no number starts with an opening bracket. -/
structure Strtod (V : Type) where
  scan : List Char → Nat × V
  scan_le (s : List Char) : (scan s).1 ≤ s.length
  scan_opening {o : Char} (s : List Char) : o ∈ ['(', '[', '{'] → (scan (o :: s)).1 = 0

/-- The operators: a value, or `MATH_ERROR`. -/
structure Arith (V : Type) where
  plus : V → V → Option V
  minus : V → V → Option V
  multiply : V → V → Option V
  divide : V → V → Option V
  power : V → V → Option V

variable {V : Type}

/-! ## The parser -/

/-- The byte at a position. -/
def charAt (str : List Char) (position : Nat) : Char := str.getD position '\x00'

/-- `GetNum`: the value, the end pointer and the bracket. -/
def getNum [Zero V] (strtod : Strtod V) (str : List Char) (position : Nat) : V × Nat × Char :=
  -- brackets come before numbers: `strtod` is not called for them
  if charAt str position = '(' ∨ charAt str position = '[' ∨ charAt str position = '{' then
    (0, position + 1, charAt str position)
  else
    let (length, value) := strtod.scan (str.drop position)
    (value, position + length, '\x00')

/-- `GetOp`: the byte and the end pointer. -/
def getOp (str : List Char) (position : Nat) : Char × Nat := (charAt str position, position + 1)

/-! ## The tables -/

/-- `operators_lut[..][1]`: the priority of an operator, the opening bracket of a closing one. -/
def operatorsLut : Char → Nat
  | '+' => 1
  | '-' => 1
  | '*' => 2
  | '/' => 2
  | '^' => 3
  | ')' => '('.toNat
  | ']' => '['.toNat
  | '}' => '{'.toNat
  | _ => 0

inductive MainFunc
  | notCorrectOperator
  | endOfEx
  | correctOperator
  | parantheses

/-- `main_func_lut`: the index is a signed `char`. -/
def mainFuncLut (c : Char) : Except Abort MainFunc :=
  -- a byte from 128 on is negative
  if 128 ≤ c.toNat then
    .error .index
  else
    match c with
    | '\x00' => .ok .endOfEx
    | '+' => .ok .correctOperator
    | '-' => .ok .correctOperator
    | '*' => .ok .correctOperator
    | '/' => .ok .correctOperator
    | '^' => .ok .correctOperator
    | ')' => .ok .parantheses
    | ']' => .ok .parantheses
    | '}' => .ok .parantheses
    | _ => .ok .notCorrectOperator

def funcLut (arith : Arith V) : Char → Except Abort (V → V → Option V)
  | '+' => .ok arith.plus
  | '-' => .ok arith.minus
  | '*' => .ok arith.multiply
  | '/' => .ok arith.divide
  | '^' => .ok arith.power
  | _ => .error .null

def getOperatorPriority (operator : Char) : Nat := operatorsLut operator

/-! ## Operators that are applied -/

variable [Zero V]

/-- The return value and the exit status of the call of an operator. -/
def applyFunc (func : V → V → Option V) (num1 num2 : V) (exitStatus : CalcStatus) : V × CalcStatus :=
  match func num1 num2 with
  | some operand => (operand, exitStatus)
  | none => (0, .mathError)

def calcOperation (arith : Arith V) (cal : Calc V) (exitStatus : CalcStatus) :
    Except Abort (V × Calc V × CalcStatus) := do
  -- the last number that was pushed is the second operand
  let num2 ← stackPeek cal.numStack
  let numStack ← stackPop cal.numStack
  let num1 ← stackPeek numStack
  let numStack ← stackPop numStack
  let operator ← stackPeek cal.opStack
  let func ← funcLut arith operator
  let result := applyFunc func num1 num2 exitStatus
  let numStack ← stackPush numStack result.1
  let opStack ← stackPop cal.opStack
  return (result.1, { cal with numStack, opStack }, result.2)

/-- The loops of `Parantheses` and of `EndOfEx`: one operator is applied in each turn, so there are no more turns than
    stacked operators. -/
def reduceWhile (arith : Arith V) (stays : Char → Bool) :
    Nat → V → Calc V → CalcStatus → Except Abort (V × Calc V × CalcStatus)
  | 0, _, _, _ => .error .empty
  | turns + 1, res, cal, exitStatus => do
      let currentOperator ← stackPeek cal.opStack
      if stays currentOperator then
        let (res, cal, exitStatus) ← calcOperation arith cal exitStatus
        reduceWhile arith stays turns res cal exitStatus
      else
        return (res, cal, exitStatus)

/-! ## The entries of `main_func_lut` -/

def parantheses (arith : Arith V) (str : List Char) (cal : Calc V) (exitStatus : CalcStatus) :
    Except Abort (V × Calc V × CalcStatus) := do
  -- `GetOp` has moved past the byte
  let operator := charAt str (cal.mathExp - 1)
  let peekNum ← stackPeek cal.numStack
  let (res, cal, exitStatus) ←
    reduceWhile arith (fun c => c != '[' && c != '{' && c != '(' && c != '#') cal.opStack.stackElements.length peekNum
      cal exitStatus
  let currentOperator ← stackPeek cal.opStack
  if currentOperator = '#' ∨ operatorsLut operator ≠ currentOperator.toNat then
    return (0, cal, .syntaxError)
  else
    let opStack ← stackPop cal.opStack
    return (res, { cal with opStack, paranthesesCounter := cal.paranthesesCounter - 1 }, exitStatus)

def notCorrectOperator (cal : Calc V) : V × Calc V × CalcStatus := (0, cal, .syntaxError)

def twoPowerInRow (top oper : Char) : Bool := if oper = '^' then top = '^' else false

def correctOperator (arith : Arith V) (str : List Char) (cal : Calc V) (exitStatus : CalcStatus) :
    Except Abort (V × Calc V × CalcStatus) := do
  let operator := charAt str (cal.mathExp - 1)
  let top ← stackPeek cal.opStack
  if twoPowerInRow top operator ∨ getOperatorPriority operator > getOperatorPriority top then
    let opStack ← stackPush cal.opStack operator
    return (0, { cal with opStack, currenState := .waitForNum }, exitStatus)
  else
    -- the operator is read again in the next turn
    let (_, cal, exitStatus) ← calcOperation arith cal exitStatus
    return (0, { cal with mathExp := cal.mathExp - 1 }, exitStatus)

def endOfEx (arith : Arith V) (cal : Calc V) (exitStatus : CalcStatus) : Except Abort (V × Calc V × CalcStatus) := do
  let peekNum ← stackPeek cal.numStack
  reduceWhile arith (fun c => c != '#') cal.opStack.stackElements.length peekNum cal exitStatus

/-! ## The states and the loop -/

def waitForNum (strtod : Strtod V) (str : List Char) (cal : Calc V) : Except Abort (V × Calc V × CalcStatus) :=
  let (getNumReturn, mathExp, parantheses) := getNum strtod str cal.mathExp
  -- the end pointer has not moved
  if mathExp = cal.mathExp ∨ charAt str cal.mathExp = '\x00' then
    return (0, { cal with mathExp }, .syntaxError)
  else if parantheses = '(' ∨ parantheses = '[' ∨ parantheses = '{' then do
    let opStack ← stackPush cal.opStack parantheses
    return (0, { cal with mathExp, opStack, paranthesesCounter := cal.paranthesesCounter + 1 }, .success)
  else do
    let numStack ← stackPush cal.numStack getNumReturn
    return (0, { cal with mathExp, numStack, currenState := .waitForOp }, .success)

/-- The call of an entry of `main_func_lut`. -/
def MainFunc.call (arith : Arith V) (str : List Char) (cal : Calc V) (exitStatus : CalcStatus) :
    MainFunc → Except Abort (V × Calc V × CalcStatus)
  | .notCorrectOperator => .ok (Calculator.notCorrectOperator cal)
  | .endOfEx => Calculator.endOfEx arith cal exitStatus
  | .correctOperator => Calculator.correctOperator arith str cal exitStatus
  | .parantheses => Calculator.parantheses arith str cal exitStatus

def waitForOp (arith : Arith V) (str : List Char) (cal : Calc V) (exitStatus : CalcStatus) :
    Except Abort (V × Calc V × CalcStatus) := do
  let (getOpReturn, mathExp) := getOp str cal.mathExp
  let func ← mainFuncLut getOpReturn
  let (operand, cal, exitStatus) ← func.call arith str { cal with mathExp } exitStatus
  if exitStatus ≠ .success then
    return (0, cal, exitStatus)
  else
    return (operand, cal, exitStatus)

/-- `state_lut`. -/
def stateLut (strtod : Strtod V) (arith : Arith V) (str : List Char) (cal : Calc V) (exitStatus : CalcStatus) :
    Except Abort (V × Calc V × CalcStatus) :=
  match cal.currenState with
  | .waitForNum => waitForNum strtod str cal
  | .waitForOp => waitForOp arith str cal exitStatus

omit [Zero V] in
def calcInit : Except Abort (Calc V) := do
  let opStack ← stackPush (stackCreate 1000) '#'
  return ⟨stackCreate 100, opStack, 0, .waitForNum, 0⟩

/-- The loop of `Calculate` and what comes after it, for at most `fuel - 1` turns. -/
def calcLoop (strtod : Strtod V) (arith : Arith V) (str : List Char) :
    Nat → Calc V → CalcStatus → Option (Except Abort (V × CalcStatus))
  | 0, _, _ => none
  | fuel + 1, cal, exitStatus =>
      if charAt str cal.mathExp ≠ '\x00' then
        match stateLut strtod arith str cal exitStatus with
        | .error abort => some (.error abort)
        | .ok (_, cal, exitStatus) =>
            if exitStatus ≠ .success then some (.ok (0, exitStatus)) else calcLoop strtod arith str fuel cal exitStatus
      else if cal.paranthesesCounter ≠ 0 then
        some (.ok (0, .syntaxError))
      else
        -- the state is called once more, at the `NUL`
        match stateLut strtod arith str cal exitStatus with
        | .error abort => some (.error abort)
        | .ok (res, _, exitStatus) => some (.ok (res, exitStatus))

/-- `Calculate`: the return value and the exit status, which has any value before. -/
def calculate (strtod : Strtod V) (arith : Arith V) (fuel : Nat) (mathExp : List Char) (exitStatus : CalcStatus) :
    Option (Except Abort (V × CalcStatus)) :=
  match calcInit with
  | .error abort => some (.error abort)
  | .ok cal => calcLoop strtod arith mathExp fuel cal exitStatus

end Workbench.Calculator
