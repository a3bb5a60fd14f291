import Mathlib.Algebra.Order.Ring.Abs
import Mathlib.Algebra.Order.Ring.Int
import Mathlib.Data.Rat.Defs
import Workbench.Lib.Dict

/-!
# `Python.Value` — decoded JSON documents as Python sees them

The values `json.load` can return, with the operations of the language the modelled scripts apply to them:
truth value, `==`, hashing (a `list` or `dict` raises when it is looked up in a `set`), `isinstance`
tests, `int(...)`, `float(...)`, and the subscripts `v[k]` and `v.get(k)`.

## Contents
- **Values.** `PyFloat`, `PyVal`, `PyDict`.
- **Exceptions.** `PyErr`, `Message`; `Except PyErr` is the monad of code that may raise.
- **Operations**, each with the small lemmas the later modules rewrite with.
-/

namespace Workbench.Python

/-- The values of a `float`: a finite double (a rational), an infinity, or NaN. -/
inductive PyFloat where
  | fin (q : Rat)
  | inf (negative : Bool)
  | nan
  deriving DecidableEq

/-- What `json.load` returns. A `dict` keeps its entries in insertion order. -/
inductive PyVal where
  | none
  | bool (b : Bool)
  | int (i : Int)
  | float (f : PyFloat)
  | str (s : String)
  | list (xs : List PyVal)
  | dict (d : List (String × PyVal))

instance : Inhabited PyVal := ⟨.none⟩

/-- A dictionary with string keys, the only kind JSON has. -/
abbrev PyDict := Dict String PyVal

/-! ## Exceptions -/

/-- One piece of an f-string: literal text, or a value formatted into it. -/
inductive Part where
  | text (s : String)
  | value (v : PyVal)

/-- The text of an exception, with the formatted values left symbolic. -/
abbrev Message := List Part

/-- The exceptions the modelled code raises or lets escape. -/
inductive PyErr where
  | planValidationError (code : String) (message : Message)
  | typeError
  | attributeError
  | keyError (key : String)
  | overflowError
  | valueError
  /-- Whatever `json.load` raises on a file that does not decode. -/
  | decodeError

/-- `raise PlanValidationError(code, text)`. -/
def raisePlan {α : Type} (code : String) (text : String) : Except PyErr α :=
  .error (.planValidationError code [.text text])

/-- `if not c: raise PlanValidationError(code, text)`. -/
def require (c : Bool) (code : String) (text : String) : Except PyErr Unit :=
  if c then .ok () else raisePlan code text

/-- `e` raised something other than a `PlanValidationError`. -/
def Crashes {α : Type} : Except PyErr α → Prop
  | .ok _ => False
  | .error (.planValidationError _ _) => False
  | .error _ => True

/-- `e` raised a `PlanValidationError`. -/
def Rejects {α : Type} : Except PyErr α → Prop
  | .error (.planValidationError _ _) => True
  | _ => False

/-! ### Sequencing -/

section Bind

variable {α β : Type}

theorem bind_eq_ok {x : Except PyErr α} {f : α → Except PyErr β} {b : β} :
    (x >>= f) = .ok b ↔ ∃ a, x = .ok a ∧ f a = .ok b := by
  cases x with
  | error e => simp [bind, Except.bind]
  | ok a => simp [bind, Except.bind]

theorem crashes_bind {x : Except PyErr α} {f : α → Except PyErr β} :
    Crashes (x >>= f) ↔ Crashes x ∨ ∃ a, x = .ok a ∧ Crashes (f a) := by
  cases x with
  | error e => cases e <;> simp [bind, Except.bind, Crashes]
  | ok a => simp [bind, Except.bind, Crashes]

/-- `bind_eq_ok` for a check, whose result carries no information. -/
theorem seq_eq_ok {x : Except PyErr Unit} {f : Unit → Except PyErr β} {b : β} :
    (x >>= f) = .ok b ↔ x = .ok () ∧ f () = .ok b :=
  bind_eq_ok.trans ⟨fun ⟨(), h⟩ => h, fun h => ⟨(), h⟩⟩

theorem crashes_seq {x : Except PyErr Unit} {f : Unit → Except PyErr β} :
    Crashes (x >>= f) ↔ Crashes x ∨ x = .ok () ∧ Crashes (f ()) :=
  crashes_bind.trans (or_congr_right ⟨fun ⟨(), h⟩ => h, fun h => ⟨(), h⟩⟩)

@[simp] theorem not_crashes_ok (a : α) : ¬ Crashes (.ok a : Except PyErr α) := id

@[simp] theorem not_crashes_pure (a : α) : ¬ Crashes (pure a : Except PyErr α) := id

@[simp] theorem not_crashes_raisePlan (code text : String) :
    ¬ Crashes (raisePlan code text : Except PyErr α) := id

@[simp] theorem not_crashes_require (c : Bool) (code text : String) :
    ¬ Crashes (require c code text) := by
  cases c <;> simp [require]

@[simp] theorem require_eq_ok {c : Bool} {code text : String} {u : Unit} :
    require c code text = .ok u ↔ c = true := by
  cases c <;> simp [require, raisePlan]

@[simp] theorem raisePlan_ne_ok {code text : String} {a : α} :
    (raisePlan code text : Except PyErr α) = .ok a ↔ False := by
  simp [raisePlan]

/-- A computation returns, is rejected, or crashes. -/
theorem ok_or_rejects_or_crashes (x : Except PyErr α) :
    (∃ a, x = .ok a) ∨ Rejects x ∨ Crashes x := by
  cases x with
  | ok a => exact Or.inl ⟨a, rfl⟩
  | error e => cases e <;> simp [Rejects, Crashes]

end Bind

/-! ## Operations on values -/

namespace PyVal

/-- The number a value stands for in a comparison: `True` is `1`, `False` is `0`. -/
def number : PyVal → Option PyFloat
  | .bool b => some (.fin (if b then 1 else 0))
  | .int i => some (.fin i)
  | .float f => some f
  | _ => Option.none

/-- Numeric equality: NaN differs from everything. -/
def numEq : PyFloat → PyFloat → Bool
  | .fin p, .fin q => p == q
  | .inf a, .inf b => a == b
  | _, _ => false

mutual

/-- `v == w`. -/
def eq : PyVal → PyVal → Bool
  | .none, .none => true
  | .str a, .str b => a == b
  | .list xs, .list ys => eqList xs ys
  | .dict d, .dict e => d.length == e.length && eqEntries d e
  | v, w =>
      match v.number, w.number with
      | some p, some q => numEq p q
      | _, _ => false

/-- Element-wise equality of lists. -/
def eqList : List PyVal → List PyVal → Bool
  | [], [] => true
  | x :: xs, y :: ys => eq x y && eqList xs ys
  | _, _ => false

/-- Every entry of the first dictionary has an equal entry in the second. -/
def eqEntries : List (String × PyVal) → List (String × PyVal) → Bool
  | [], _ => true
  | (k, v) :: d, e =>
      (match Dict.get? e k with
        | some w => eq v w
        | Option.none => false) && eqEntries d e

end

/-- `bool(v)`. -/
def truthy : PyVal → Bool
  | .none => false
  | .bool b => b
  | .int i => i != 0
  | .float (.fin q) => q != 0
  | .float _ => true
  | .str s => s != ""
  | .list xs => !xs.isEmpty
  | .dict d => !d.isEmpty

/-- Whether `hash(v)` is defined. -/
def hashable : PyVal → Bool
  | .list _ => false
  | .dict _ => false
  | _ => true

/-- `v in names` for a `set` of strings: an unhashable value raises `TypeError`. -/
def inStrSet (v : PyVal) (names : List String) : Except PyErr Bool :=
  match v with
  | .list _ => .error .typeError
  | .dict _ => .error .typeError
  | .str s => .ok (names.contains s)
  | _ => .ok false

/-- `v` as an integer when `isinstance(v, int)`; `bool` is a subclass of `int`. -/
def asInt : PyVal → Option Int
  | .int i => some i
  | .bool b => some (if b then 1 else 0)
  | _ => Option.none

/-- `isinstance(v, int) and v >= bound`. -/
def isIntGe (v : PyVal) (bound : Int) : Bool :=
  match v.asInt with
  | some i => decide (bound ≤ i)
  | Option.none => false

/-- The least absolute value an `int` has that `float(...)` cannot round to a double. -/
def floatLimit : Int := 2 ^ 1024 - 2 ^ 970

theorem one_lt_floatLimit : 1 < floatLimit := by
  have hsplit : (2 : Int) ^ 1024 = 2 ^ 970 * 2 ^ 54 := by rw [← pow_add]
  have hpos : (1 : Int) ≤ 2 ^ 970 := one_le_pow₀ (by omega)
  unfold floatLimit
  rw [hsplit]
  generalize (2 : Int) ^ 970 = x at hpos
  omega

/-- `float(v)` for an `int` or a `float`. -/
def toFloat : PyVal → Except PyErr PyFloat
  | .bool b => .ok (.fin (if b then 1 else 0))
  | .int i => if floatLimit ≤ |i| then .error .overflowError else .ok (.fin i)
  | .float f => .ok f
  | _ => .error .typeError

/-- The entries of a value that is a `dict`. -/
def asDict : PyVal → Option PyDict
  | .dict d => some d
  | _ => Option.none

end PyVal

/-- The whitespace `str.strip()` removes. -/
def isSpace (c : Char) : Bool :=
  let n := c.toNat
  (9 ≤ n && n ≤ 13) || (28 ≤ n && n ≤ 32) || n == 0x85 || n == 0xA0 || n == 0x1680 ||
    (0x2000 ≤ n && n ≤ 0x200A) || n == 0x2028 || n == 0x2029 || n == 0x202F || n == 0x205F ||
    n == 0x3000

/-- `d[k]`, for a key the code has made sure of (`None` otherwise). -/
def item (d : PyDict) (k : String) : PyVal := (Dict.get? d k).getD .none

/-- `d.get(k, default)`. -/
def getOr (d : PyDict) (k : String) (default : PyVal) : PyVal := (Dict.get? d k).getD default

@[simp] theorem item_put_self (d : PyDict) (k : String) (v : PyVal) : item (d.put k v) k = v := by
  simp [item]

@[simp] theorem item_put_ne {k k' : String} (h : k ≠ k') (d : PyDict) (v : PyVal) :
    item (d.put k v) k' = item d k' := by
  simp [item, h]

@[simp] theorem getOr_put_self (d : PyDict) (k : String) (v w : PyVal) :
    getOr (d.put k v) k w = v := by
  simp [getOr]

@[simp] theorem getOr_put_ne {k k' : String} (h : k ≠ k') (d : PyDict) (v w : PyVal) :
    getOr (d.put k v) k' w = getOr d k' w := by
  simp [getOr, h]

/-! ### Comparison with a string -/

@[simp] theorem PyVal.eq_str_str (a b : String) : PyVal.eq (.str a) (.str b) = (a == b) := by
  simp [PyVal.eq]

theorem PyVal.eq_str_iff {v : PyVal} {s : String} : v.eq (.str s) = true ↔ v = .str s := by
  cases v <;> simp [PyVal.eq, PyVal.number]

theorem PyVal.inStrSet_eq_ok {v : PyVal} {names : List String} :
    v.inStrSet names = .ok true ↔ ∃ s ∈ names, v = .str s := by
  cases v <;> simp [PyVal.inStrSet]

theorem PyVal.crashes_inStrSet {v : PyVal} {names : List String} :
    Crashes (v.inStrSet names) ↔ v.hashable = false := by
  cases v <;> simp [PyVal.inStrSet, PyVal.hashable, Crashes]

theorem PyVal.isIntGe_int {i b : Int} : PyVal.isIntGe (.int i) b = true ↔ b ≤ i := by
  simp [PyVal.isIntGe, PyVal.asInt]

end Workbench.Python
