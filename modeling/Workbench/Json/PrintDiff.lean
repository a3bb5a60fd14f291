import Mathlib.Data.List.Nodup
import Mathlib.Data.List.Perm.Subperm
import Workbench.Lib.Dict

/-!
# `Json.PrintDiff` — `print_json_diff`

A document is what the library makes of a text: the numbers have three types, and an object has each key once. The
library compares numbers by their values. A printed line has its text, and the steps to the place it is about.

## Contents
* `printJsonDiff`, `compareJsonFiles` — the functions;
* `valueAt`, `DiffersAt` — what the documents have at a place;
* `Reports` — the places of the lines, without the lines;
* `printJsonDiff_iff` — the documents whose report is right.
-/

namespace Workbench.JsonDiff

/-- `nlohmann::json`, as the parser builds it. -/
inductive Json where
  | null
  | boolean (b : Bool)
  | numberInteger (n : Int)
  | numberUnsigned (n : Nat)
  | numberFloat (q : Rat)
  | string (s : String)
  | array (xs : List Json)
  | object (entries : List (String × Json))

instance : Inhabited Json := ⟨.null⟩

/-- `value_t`. -/
inductive ValueType
  | null
  | boolean
  | numberInteger
  | numberUnsigned
  | numberFloat
  | string
  | array
  | object
  deriving DecidableEq

/-- `type()`. -/
def Json.type : Json → ValueType
  | .null => .null
  | .boolean _ => .boolean
  | .numberInteger _ => .numberInteger
  | .numberUnsigned _ => .numberUnsigned
  | .numberFloat _ => .numberFloat
  | .string _ => .string
  | .array _ => .array
  | .object _ => .object

/-- `type_name()`. -/
def Json.typeName : Json → String
  | .null => "null"
  | .boolean _ => "boolean"
  | .numberInteger _ => "number"
  | .numberUnsigned _ => "number"
  | .numberFloat _ => "number"
  | .string _ => "string"
  | .array _ => "array"
  | .object _ => "object"

/-- The value of a number. -/
def Json.number : Json → Option Rat
  | .numberInteger n => some n
  | .numberUnsigned n => some n
  | .numberFloat q => some q
  | _ => none

/-- Numbers of the same value. -/
def sameNumber (j1 j2 : Json) : Bool :=
  match j1.number, j2.number with
  | some p, some q => p == q
  | _, _ => false

mutual

/-- `j1 == j2`. -/
def eq : Json → Json → Bool
  | .null, .null => true
  | .boolean a, .boolean b => a == b
  | .string a, .string b => a == b
  | .array xs, .array ys => eqElems xs ys
  | .object a, .object b => a.length == b.length && eqEntries a b
  | j1, j2 => sameNumber j1 j2

def eqElems : List Json → List Json → Bool
  | [], [] => true
  | x :: xs, y :: ys => eq x y && eqElems xs ys
  | _, _ => false

/-- Each entry of the first object has an equal one in the second. -/
def eqEntries : List (String × Json) → List (String × Json) → Bool
  | [], _ => true
  | (k, v) :: a, b =>
      (match Dict.get? b k with
        | some w => eq v w
        | none => false) && eqEntries a b

end

/-! ## The functions -/

/-- A key of an object, or an index of an array. -/
inductive Step
  | key (k : String)
  | index (i : Nat)
  deriving DecidableEq

/-- `path`, with the steps that it stands for. -/
structure Place where
  text : String
  steps : List Step

def Place.key (path : Place) (k : String) : Place :=
  ⟨if path.text.isEmpty then k else path.text ++ "." ++ k, path.steps ++ [.key k]⟩

def Place.index (path : Place) (i : Nat) : Place :=
  ⟨path.text ++ "[" ++ toString i ++ "]", path.steps ++ [.index i]⟩

/-- What a line says. -/
inductive Finding
  | typeMismatch (first second : String)
  | keyOnlyInFirst
  | keyOnlyInSecond
  | elementOnlyInFirst
  | elementOnlyInSecond
  | valueMismatch (first second : Json)

structure Line where
  finding : Finding
  place : Place

/-- The keys that only the second object has. -/
def secondOnly (a b : List (String × Json)) (path : Place) : List Line :=
  (b.filter fun e => !Dict.hasKey a e.1).map fun e => ⟨.keyOnlyInSecond, path.key e.1⟩

/-- The elements behind the common indices. -/
def tailOnly (size1 size2 : Nat) (path : Place) : List Line :=
  let minSize := min size1 size2
  if size1 > size2 then
    (List.range' minSize (size1 - minSize)).map fun i => ⟨.elementOnlyInFirst, path.index i⟩
  else if size2 > size1 then
    (List.range' minSize (size2 - minSize)).map fun i => ⟨.elementOnlyInSecond, path.index i⟩
  else
    []

mutual

/-- The type is compared first, which two objects and two arrays have in common. -/
def printJsonDiff : Json → Json → Place → List Line
  | .object a, .object b, path => diffEntries a b path ++ secondOnly a b path
  | .array xs, .array ys, path => diffElems xs ys path 0 ++ tailOnly xs.length ys.length path
  | j1, j2, path =>
      if j1.type ≠ j2.type then [⟨.typeMismatch j1.typeName j2.typeName, path⟩]
      else if !eq j1 j2 then [⟨.valueMismatch j1 j2, path⟩]
      else []

/-- The loop over the first object. -/
def diffEntries : List (String × Json) → List (String × Json) → Place → List Line
  | [], _, _ => []
  | (k, v) :: a, b, path =>
      (match Dict.get? b k with
        | some w => printJsonDiff v w (path.key k)
        | none => [⟨.keyOnlyInFirst, path.key k⟩]) ++ diffEntries a b path

/-- The loop over the common indices, from one on. -/
def diffElems : List Json → List Json → Place → Nat → List Line
  | x :: xs, y :: ys, path, i => printJsonDiff x y (path.index i) ++ diffElems xs ys path (i + 1)
  | _, _, _, _ => []

end

/-- The verdict: identical, or different with the lines. -/
def compareJsonFiles (j1 j2 : Json) : Option (List Line) :=
  if eq j1 j2 then none else some (printJsonDiff j1 j2 ⟨"", []⟩)

/-! ## Documents -/

/-- An object or an array. -/
def Json.isContainer : Json → Bool
  | .array _ => true
  | .object _ => true
  | _ => false

/-- What is one step away. -/
def childAt : Json → Step → Option Json
  | .object a, .key k => Dict.get? a k
  | .array xs, .index i => xs[i]?
  | _, _ => none

/-- What a document has at a place. -/
def valueAt : Json → List Step → Option Json
  | j, [] => some j
  | j, s :: steps => (childAt j s).bind fun v => valueAt v steps

mutual

/-- No object has a key twice. -/
def distinct : Json → Bool
  | .array xs => distinctElems xs
  | .object a => distinctEntries a
  | _ => true

def distinctElems : List Json → Bool
  | [] => true
  | x :: xs => distinct x && distinctElems xs

def distinctEntries : List (String × Json) → Bool
  | [] => true
  | (k, v) :: a => decide (k ∉ Dict.keys a) && distinct v && distinctEntries a

end

variable {j1 j2 v w : Json} {xs ys : List Json} {a b : List (String × Json)} {k : String} {i : Nat} {path : Place}
  {s : Step} {steps : List Step} {line : Line}

theorem distinctEntries_cons :
    distinctEntries ((k, v) :: a) = true ↔ (k ∉ Dict.keys a ∧ distinct v = true) ∧ distinctEntries a = true := by
  rw [distinctEntries, Bool.and_eq_true, Bool.and_eq_true, decide_eq_true_eq]

theorem nodup_of_distinct (h : distinct (.object a) = true) : (Dict.keys a).Nodup := by
  rw [distinct] at h
  induction a with
  | nil => exact List.nodup_nil
  | cons e a ih =>
      obtain ⟨⟨hnew, -⟩, hrest⟩ := distinctEntries_cons.mp h
      exact List.nodup_cons.mpr ⟨hnew, ih hrest⟩

theorem distinct_of_mem (h : distinctEntries a = true) (hmem : (k, v) ∈ a) : distinct v = true := by
  induction a with
  | nil => cases hmem
  | cons e a ih =>
      obtain ⟨⟨-, hv⟩, hrest⟩ := distinctEntries_cons.mp h
      rcases List.mem_cons.mp hmem with rfl | hmem
      · exact hv
      · exact ih hrest hmem

theorem distinct_of_mem_elems (h : distinctElems xs = true) (hmem : v ∈ xs) : distinct v = true := by
  induction xs with
  | nil => cases hmem
  | cons x xs ih =>
      rw [distinctElems, Bool.and_eq_true] at h
      rcases List.mem_cons.mp hmem with rfl | hmem
      · exact h.1
      · exact ih h.2 hmem

/-- A step goes to an entry or to an element. -/
theorem childAt_cases (h : childAt j1 s = some v) :
    (∃ a k, j1 = .object a ∧ s = .key k ∧ Dict.get? a k = some v) ∨
      ∃ xs i, j1 = .array xs ∧ s = .index i ∧ xs[i]? = some v := by
  cases j1 with
  | object a =>
      cases s with
      | key k => exact .inl ⟨a, k, rfl, rfl, h⟩
      | index i => cases h
  | array xs =>
      cases s with
      | key k => cases h
      | index i => exact .inr ⟨xs, i, rfl, rfl, h⟩
  | _ => cases h

theorem distinct_of_childAt (h : distinct j1 = true) (hchild : childAt j1 s = some v) : distinct v = true := by
  rcases childAt_cases hchild with ⟨a, k, rfl, -, hget⟩ | ⟨xs, i, rfl, -, hget⟩
  · exact distinct_of_mem h (Dict.mem_of_get?_eq_some hget)
  · exact distinct_of_mem_elems h (List.mem_of_getElem? hget)

/-- Documents are finite. -/
theorem sizeOf_childAt (hchild : childAt j1 s = some v) : sizeOf v < sizeOf j1 := by
  rcases childAt_cases hchild with ⟨a, k, rfl, -, hget⟩ | ⟨xs, i, rfl, -, hget⟩
  · have hentry := List.sizeOf_lt_of_mem (Dict.mem_of_get?_eq_some hget)
    rw [Prod.mk.sizeOf_spec] at hentry
    rw [Json.object.sizeOf_spec]
    omega
  · have helement := List.sizeOf_lt_of_mem (List.mem_of_getElem? hget)
    rw [Json.array.sizeOf_spec]
    omega

/-- Documents that both have something at a step are of one type. -/
theorem type_eq_of_childAt (h1 : childAt j1 s = some v) (h2 : childAt j2 s = some w) : j1.type = j2.type := by
  rcases childAt_cases h1 with ⟨a, k, rfl, rfl, -⟩ | ⟨xs, i, rfl, rfl, -⟩
  · rcases childAt_cases h2 with ⟨b, k', rfl, -, -⟩ | ⟨ys, i, -, hs, -⟩
    · rfl
    · cases hs
  · rcases childAt_cases h2 with ⟨b, k', -, hs, -⟩ | ⟨ys, i', rfl, -, -⟩
    · cases hs
    · rfl

theorem childAt_of_not_isContainer (h : j1.isContainer = false) (s : Step) : childAt j1 s = none := by
  cases hchild : childAt j1 s with
  | none => rfl
  | some v =>
      rcases childAt_cases hchild with ⟨a, k, rfl, -, -⟩ | ⟨xs, i, rfl, -, -⟩
      · cases h
      · cases h

/-! ## Equality -/

/-- Both are there and are equal, or none is there. -/
def SameAt (x y : Option Json) : Prop :=
  match x, y with
  | some v, some w => eq v w = true
  | none, none => True
  | _, _ => False

theorem eqEntries_iff : eqEntries a b = true ↔ ∀ e ∈ a, ∃ w, Dict.get? b e.1 = some w ∧ eq e.2 w = true := by
  induction a with
  | nil => exact iff_of_true rfl fun e he => absurd he List.not_mem_nil
  | cons e a ih =>
      obtain ⟨k, v⟩ := e
      rw [eqEntries, Bool.and_eq_true, ih, List.forall_mem_cons]
      refine and_congr_left' ?_
      cases Dict.get? b k with
      | none => simp
      | some w => simp

/-- **Two objects** are equal if and only if they are equal at each key. -/
theorem eq_object_iff (ha : (Dict.keys a).Nodup) (hb : (Dict.keys b).Nodup) :
    eq (.object a) (.object b) = true ↔ ∀ k, SameAt (Dict.get? a k) (Dict.get? b k) := by
  have hlength : ∀ d : List (String × Json), (Dict.keys d).length = d.length := fun d => List.length_map _
  rw [eq, Bool.and_eq_true, beq_iff_eq, eqEntries_iff]
  constructor
  · rintro ⟨hsize, hentries⟩ k
    have hsub : Dict.keys a ⊆ Dict.keys b := fun k hk => by
      obtain ⟨e, he, rfl⟩ := List.mem_map.mp hk
      obtain ⟨w, hw, -⟩ := hentries e he
      exact Dict.hasKey_iff_mem_keys.mp (Option.isSome_iff_exists.mpr ⟨w, hw⟩)
    have hperm : (Dict.keys a).Perm (Dict.keys b) :=
      (ha.subperm hsub).perm_of_length_le (Nat.le_of_eq (by rw [hlength, hlength, hsize]))
    cases hget : Dict.get? a k with
    | some v =>
        obtain ⟨w, hw, heq⟩ := hentries (k, v) (Dict.mem_of_get?_eq_some hget)
        rw [hw]
        exact heq
    | none =>
        have hnone : Dict.get? b k = none :=
          Dict.get?_eq_none_iff.mpr fun hk => Dict.get?_eq_none_iff.mp hget (hperm.mem_iff.mpr hk)
        rw [hnone]
        trivial
  · intro hsame
    have hkeys : ∀ k, k ∈ Dict.keys a ↔ k ∈ Dict.keys b := fun k => by
      have hk := hsame k
      rw [← Dict.hasKey_iff_mem_keys, ← Dict.hasKey_iff_mem_keys, Dict.hasKey, Dict.hasKey]
      revert hk
      cases Dict.get? a k <;> cases Dict.get? b k <;> simp [SameAt]
    refine ⟨?_, fun e he => ?_⟩
    · rw [← hlength a, ← hlength b]
      exact ((List.perm_ext_iff_of_nodup ha hb).mpr hkeys).length_eq
    · have hk := hsame e.1
      rw [Dict.get?_eq_some_of_mem ha he] at hk
      cases hget : Dict.get? b e.1 with
      | none =>
          rw [hget] at hk
          exact hk.elim
      | some w =>
          rw [hget] at hk
          exact ⟨w, rfl, hk⟩

/-- **Two arrays** are equal if and only if they are equal at each index. -/
theorem eq_array_iff : eq (.array xs) (.array ys) = true ↔ ∀ i : Nat, SameAt xs[i]? ys[i]? := by
  rw [eq]
  induction xs generalizing ys with
  | nil =>
      cases ys with
      | nil => exact iff_of_true rfl fun i => trivial
      | cons y ys => exact iff_of_false Bool.false_ne_true fun h => h 0
  | cons x xs ih =>
      cases ys with
      | nil => exact iff_of_false Bool.false_ne_true fun h => h 0
      | cons y ys =>
          rw [eqElems, Bool.and_eq_true, ih]
          constructor
          · rintro ⟨hfirst, hrest⟩ i
            cases i with
            | zero => exact hfirst
            | succ i => exact hrest i
          · exact fun h => ⟨h 0, fun i => h (i + 1)⟩

theorem isContainer_eq (htype : j1.type = j2.type) : j1.isContainer = j2.isContainer := by
  cases j1 <;> cases j2 <;> first | rfl | cases htype

/-- Two objects or two arrays. -/
theorem container_cases (htype : j1.type = j2.type) (hcontainer : j1.isContainer = true) :
    (∃ a b, j1 = .object a ∧ j2 = .object b) ∨ ∃ xs ys, j1 = .array xs ∧ j2 = .array ys := by
  cases j1 with
  | object a =>
      cases j2 with
      | object b => exact .inl ⟨a, b, rfl, rfl⟩
      | _ => cases htype
  | array xs =>
      cases j2 with
      | array ys => exact .inr ⟨xs, ys, rfl, rfl⟩
      | _ => cases htype
  | _ => cases hcontainer

theorem eq_container_iff (hdistinct1 : distinct j1 = true) (hdistinct2 : distinct j2 = true)
    (htype : j1.type = j2.type) (hcontainer : j1.isContainer = true) :
    eq j1 j2 = true ↔ ∀ s, SameAt (childAt j1 s) (childAt j2 s) := by
  rcases container_cases htype hcontainer with ⟨a, b, rfl, rfl⟩ | ⟨xs, ys, rfl, rfl⟩
  · rw [eq_object_iff (nodup_of_distinct hdistinct1) (nodup_of_distinct hdistinct2)]
    refine ⟨fun h s => ?_, fun h k => h (.key k)⟩
    cases s with
    | key k => exact h k
    | index i => trivial
  · rw [eq_array_iff]
    refine ⟨fun h s => ?_, fun h i => h (.index i)⟩
    cases s with
    | key k => trivial
    | index i => exact h i

/-- Values of different types are equal as numbers only. -/
theorem eq_of_type_ne (htype : j1.type ≠ j2.type) : eq j1 j2 = sameNumber j1 j2 := by
  cases j1 <;> cases j2 <;> first | rfl | exact absurd rfl htype

theorem isContainer_of_sameNumber (h : sameNumber j1 j2 = true) : j1.isContainer = false ∧ j2.isContainer = false := by
  cases j1 <;> cases j2 <;> first | exact ⟨rfl, rfl⟩ | cases h

/-- Equal documents are equal at each step. -/
theorem same_of_eq (hdistinct1 : distinct j1 = true) (hdistinct2 : distinct j2 = true) (heq : eq j1 j2 = true)
    (s : Step) : SameAt (childAt j1 s) (childAt j2 s) := by
  by_cases htype : j1.type = j2.type
  · cases hcontainer : j1.isContainer with
    | true => exact (eq_container_iff hdistinct1 hdistinct2 htype hcontainer).mp heq s
    | false =>
        have hcontainer2 : j2.isContainer = false := (isContainer_eq htype).symm.trans hcontainer
        rw [childAt_of_not_isContainer hcontainer, childAt_of_not_isContainer hcontainer2]
        trivial
  · rw [eq_of_type_ne htype] at heq
    obtain ⟨h1, h2⟩ := isContainer_of_sameNumber heq
    rw [childAt_of_not_isContainer h1, childAt_of_not_isContainer h2]
    trivial

/-! ## Differences -/

/-- The values at a place differ, or only one document has it. -/
def DiffersAt (j1 j2 : Json) (steps : List Step) : Prop := ¬ SameAt (valueAt j1 steps) (valueAt j2 steps)

/-- Where both documents have the same number, it is of the same type. -/
def SameTypes (j1 j2 : Json) : Prop :=
  ∀ steps v w, valueAt j1 steps = some v → valueAt j2 steps = some w → sameNumber v w = true → v.type = w.type

/-- The places of the lines. -/
def Reports : Json → Json → List Step → Prop
  | j1, j2, [] => j1.type ≠ j2.type ∨ j1.isContainer = false ∧ eq j1 j2 = false
  | j1, j2, s :: steps => j1.type = j2.type ∧
      ((childAt j1 s).isSome ≠ (childAt j2 s).isSome ∧ steps = [] ∨
        ∃ v w, childAt j1 s = some v ∧ childAt j2 s = some w ∧ Reports v w steps)

theorem SameTypes.child (h : SameTypes j1 j2) (h1 : childAt j1 s = some v) (h2 : childAt j2 s = some w) :
    SameTypes v w := by
  intro steps v' w' hv' hw' hsame
  refine h (s :: steps) v' w' ?_ ?_ hsame
  · rw [valueAt, h1]
    exact hv'
  · rw [valueAt, h2]
    exact hw'

theorem eq_false_of_type_ne (h : SameTypes j1 j2) (htype : j1.type ≠ j2.type) : eq j1 j2 = false := by
  rw [eq_of_type_ne htype]
  exact Bool.eq_false_iff.mpr fun hsame => htype (h [] j1 j2 rfl rfl hsame)

/-- Equal documents differ nowhere. -/
theorem eq_false_of_differsAt (hdistinct1 : distinct j1 = true) (hdistinct2 : distinct j2 = true)
    (h : DiffersAt j1 j2 steps) : eq j1 j2 = false := by
  induction steps generalizing j1 j2 with
  | nil => exact Bool.eq_false_iff.mpr h
  | cons s steps ih =>
      refine Bool.eq_false_iff.mpr fun heq => ?_
      have hsame := same_of_eq hdistinct1 hdistinct2 heq s
      rw [DiffersAt, valueAt, valueAt] at h
      cases h1 : childAt j1 s with
      | none =>
          cases h2 : childAt j2 s with
          | none =>
              rw [h1, h2] at h
              exact h trivial
          | some w =>
              rw [h1, h2] at hsame
              exact hsame
      | some v =>
          cases h2 : childAt j2 s with
          | none =>
              rw [h1, h2] at hsame
              exact hsame
          | some w =>
              rw [h1, h2] at hsame h
              have hfalse := ih (distinct_of_childAt hdistinct1 h1) (distinct_of_childAt hdistinct2 h2) h
              exact absurd hsame (Bool.eq_false_iff.mp hfalse)

/-- A place of a line, where the same numbers have the same types. -/
theorem differsAt_of_reports (hsame : SameTypes j1 j2) (h : Reports j1 j2 steps) : DiffersAt j1 j2 steps := by
  induction steps generalizing j1 j2 with
  | nil =>
      rcases h with htype | ⟨-, heq⟩
      · exact Bool.eq_false_iff.mp (eq_false_of_type_ne hsame htype)
      · exact Bool.eq_false_iff.mp heq
  | cons s steps ih =>
      rw [DiffersAt, valueAt, valueAt]
      obtain ⟨-, ⟨hone, rfl⟩ | ⟨v, w, h1, h2, hreports⟩⟩ := h
      · revert hone
        cases childAt j1 s <;> cases childAt j2 s <;> simp [SameAt, valueAt]
      · rw [h1, h2]
        exact ih (hsame.child h1 h2) hreports

/-- Documents that differ have a line. -/
theorem exists_reports (hdistinct1 : distinct j1 = true) (hdistinct2 : distinct j2 = true) (h : eq j1 j2 = false) :
    ∃ steps, Reports j1 j2 steps := by
  induction hsize : sizeOf j1 using Nat.strongRecOn generalizing j1 j2 with
  | _ size ih =>
      subst hsize
      by_cases htype : j1.type = j2.type
      · cases hcontainer : j1.isContainer with
        | false => exact ⟨[], .inr ⟨hcontainer, h⟩⟩
        | true =>
            have hdiffer : ¬ ∀ s, SameAt (childAt j1 s) (childAt j2 s) := fun hsame => by
              rw [(eq_container_iff hdistinct1 hdistinct2 htype hcontainer).mpr hsame] at h
              cases h
            obtain ⟨s, hs⟩ := not_forall.mp hdiffer
            cases h1 : childAt j1 s with
            | none =>
                cases h2 : childAt j2 s with
                | none =>
                    rw [h1, h2] at hs
                    exact absurd trivial hs
                | some w => exact ⟨[s], htype, .inl ⟨by rw [h1, h2]; exact Bool.false_ne_true, rfl⟩⟩
            | some v =>
                cases h2 : childAt j2 s with
                | none => exact ⟨[s], htype, .inl ⟨by rw [h1, h2]; exact Bool.false_ne_true.symm, rfl⟩⟩
                | some w =>
                    rw [h1, h2] at hs
                    obtain ⟨steps, hsteps⟩ := ih _ (sizeOf_childAt h1) (distinct_of_childAt hdistinct1 h1)
                      (distinct_of_childAt hdistinct2 h2) (Bool.eq_false_iff.mpr hs) rfl
                    exact ⟨s :: steps, htype, .inr ⟨v, w, h1, h2, hsteps⟩⟩
      · exact ⟨[], .inl htype⟩

/-- Values of different types at a place have a line. -/
theorem reports_of_type_ne (h1 : valueAt j1 steps = some v) (h2 : valueAt j2 steps = some w)
    (htype : v.type ≠ w.type) : Reports j1 j2 steps := by
  induction steps generalizing j1 j2 with
  | nil =>
      obtain rfl := Option.some.inj h1
      obtain rfl := Option.some.inj h2
      exact .inl htype
  | cons s steps ih =>
      obtain ⟨v', hv', h1⟩ := Option.bind_eq_some_iff.mp h1
      obtain ⟨w', hw', h2⟩ := Option.bind_eq_some_iff.mp h2
      exact ⟨type_eq_of_childAt hv' hw', .inr ⟨v', w', hv', hw', ih h1 h2⟩⟩

/-! ## The lines -/

/-- One step further. -/
def Place.next (path : Place) : Step → Place
  | .key k => path.key k
  | .index i => path.index i

/-- The place some steps away, with its text. -/
def Place.follow (path : Place) (steps : List Step) : Place := steps.foldl Place.next path

theorem Place.steps_follow (path : Place) (steps : List Step) : (path.follow steps).steps = path.steps ++ steps := by
  induction steps generalizing path with
  | nil => exact (List.append_nil _).symm
  | cons s steps ih =>
      have hnext : (path.next s).steps = path.steps ++ [s] := by
        cases s with
        | key k => rfl
        | index i => rfl
      rw [follow, List.foldl_cons, ← follow, ih, hnext, List.append_assoc, List.singleton_append]

theorem mem_diffEntries : line ∈ diffEntries a b path ↔ ∃ e ∈ a,
    (∃ w, Dict.get? b e.1 = some w ∧ line ∈ printJsonDiff e.2 w (path.key e.1)) ∨
      Dict.get? b e.1 = none ∧ line = ⟨.keyOnlyInFirst, path.key e.1⟩ := by
  induction a with
  | nil => exact iff_of_false List.not_mem_nil fun ⟨e, he, _⟩ => absurd he List.not_mem_nil
  | cons e a ih =>
      obtain ⟨k, v⟩ := e
      rw [diffEntries, List.mem_append, ih, List.exists_mem_cons_iff]
      refine or_congr_left ?_
      cases Dict.get? b k with
      | none => simp
      | some w => simp

theorem mem_diffElems : line ∈ diffElems xs ys path i ↔
    ∃ n v w, xs[n]? = some v ∧ ys[n]? = some w ∧ line ∈ printJsonDiff v w (path.index (i + n)) := by
  induction xs generalizing ys i with
  | nil => exact iff_of_false List.not_mem_nil fun ⟨n, v, w, h, _⟩ => by cases h
  | cons x xs ih =>
      cases ys with
      | nil => exact iff_of_false List.not_mem_nil fun ⟨n, v, w, _, h, _⟩ => by cases h
      | cons y ys =>
          rw [diffElems, List.mem_append, ih]
          constructor
          · rintro (hfirst | ⟨n, v, w, hv, hw, hrest⟩)
            · exact ⟨0, x, y, rfl, rfl, hfirst⟩
            · exact ⟨n + 1, v, w, hv, hw, by rwa [show i + (n + 1) = i + 1 + n by omega]⟩
          · rintro ⟨n, v, w, hv, hw, hline⟩
            cases n with
            | zero =>
                obtain rfl := Option.some.inj hv
                obtain rfl := Option.some.inj hw
                exact .inl hline
            | succ n => exact .inr ⟨n, v, w, hv, hw, by rwa [show i + 1 + n = i + (n + 1) by omega]⟩

theorem mem_tailOnly {size1 size2 : Nat} (h : line ∈ tailOnly size1 size2 path) :
    ∃ i, line.place = path.index i ∧ min size1 size2 ≤ i ∧ i < max size1 size2 := by
  unfold tailOnly at h
  dsimp only at h
  split_ifs at h
  · obtain ⟨i, hi, rfl⟩ := List.mem_map.mp h
    rw [List.mem_range'_1] at hi
    exact ⟨i, rfl, by omega, by omega⟩
  · obtain ⟨i, hi, rfl⟩ := List.mem_map.mp h
    rw [List.mem_range'_1] at hi
    exact ⟨i, rfl, by omega, by omega⟩
  · cases h

theorem exists_mem_tailOnly (path : Place) {size1 size2 : Nat} (hle : min size1 size2 ≤ i) (hlt : i < max size1 size2) :
    ∃ line ∈ tailOnly size1 size2 path, line.place = path.index i := by
  unfold tailOnly
  dsimp only
  split_ifs with hfirst hsecond
  · exact ⟨_, List.mem_map.mpr ⟨i, List.mem_range'_1.mpr (by omega), rfl⟩, rfl⟩
  · exact ⟨_, List.mem_map.mpr ⟨i, List.mem_range'_1.mpr (by omega), rfl⟩, rfl⟩
  · omega

theorem isSome_ne_iff : xs[i]?.isSome ≠ ys[i]?.isSome ↔ min xs.length ys.length ≤ i ∧ i < max xs.length ys.length := by
  have hsome : ∀ l : List Json, (l[i]?.isSome = true) = (i < l.length) := fun l => isSome_getElem? l i
  rw [ne_eq, Bool.eq_iff_iff, hsome, hsome]
  omega

/-- A line of two objects or two arrays is about a child. -/
theorem print_cases (hdistinct1 : distinct j1 = true) (htype : j1.type = j2.type) (hcontainer : j1.isContainer = true)
    (h : line ∈ printJsonDiff j1 j2 path) :
    ∃ s, (childAt j1 s).isSome ≠ (childAt j2 s).isSome ∧ line.place = path.next s ∨
      ∃ v w, childAt j1 s = some v ∧ childAt j2 s = some w ∧ line ∈ printJsonDiff v w (path.next s) := by
  rcases container_cases htype hcontainer with ⟨a, b, rfl, rfl⟩ | ⟨xs, ys, rfl, rfl⟩
  · rw [printJsonDiff, List.mem_append, mem_diffEntries] at h
    rcases h with ⟨e, he, hline⟩ | hsecond
    · have hget := Dict.get?_eq_some_of_mem (nodup_of_distinct hdistinct1) he
      rcases hline with ⟨w, hw, hline⟩ | ⟨hnone, rfl⟩
      · exact ⟨.key e.1, .inr ⟨e.2, w, hget, hw, hline⟩⟩
      · refine ⟨.key e.1, .inl ⟨?_, rfl⟩⟩
        rw [childAt, childAt, hget, hnone]
        exact Bool.false_ne_true.symm
    · obtain ⟨e, he, rfl⟩ := List.mem_map.mp hsecond
      obtain ⟨he, hnot⟩ := List.mem_filter.mp he
      refine ⟨.key e.1, .inl ⟨?_, rfl⟩⟩
      have hkey : Dict.hasKey b e.1 = true := Dict.hasKey_iff_mem_keys.mpr (List.mem_map_of_mem he)
      rw [Bool.not_eq_true'] at hnot
      show Dict.hasKey a e.1 ≠ Dict.hasKey b e.1
      rw [hnot, hkey]
      exact Bool.false_ne_true
  · rw [printJsonDiff, List.mem_append, mem_diffElems] at h
    rcases h with ⟨n, v, w, hv, hw, hline⟩ | htail
    · rw [Nat.zero_add] at hline
      exact ⟨.index n, .inr ⟨v, w, hv, hw, hline⟩⟩
    · obtain ⟨i, hplace, hle, hlt⟩ := mem_tailOnly htail
      exact ⟨.index i, .inl ⟨isSome_ne_iff.mpr ⟨hle, hlt⟩, hplace⟩⟩

/-- A child that only one of them has is printed. -/
theorem print_of_one (path : Place) (htype : j1.type = j2.type) (hone : (childAt j1 s).isSome ≠ (childAt j2 s).isSome) :
    ∃ line ∈ printJsonDiff j1 j2 path, line.place = path.next s := by
  have hcontainer : j1.isContainer = true := by
    cases hcontainer : j1.isContainer with
    | true => rfl
    | false =>
        rw [childAt_of_not_isContainer hcontainer,
          childAt_of_not_isContainer ((isContainer_eq htype).symm.trans hcontainer)] at hone
        exact absurd rfl hone
  rcases container_cases htype hcontainer with ⟨a, b, rfl, rfl⟩ | ⟨xs, ys, rfl, rfl⟩
  · rw [printJsonDiff]
    cases s with
    | index i => exact absurd rfl hone
    | key k =>
        have hone' : Dict.hasKey a k ≠ Dict.hasKey b k := hone
        cases h1 : Dict.get? a k with
        | some v =>
            have h2 : Dict.get? b k = none := by
              rw [Dict.hasKey, Dict.hasKey, h1] at hone'
              exact Option.not_isSome_iff_eq_none.mp fun h => hone' h.symm
            exact ⟨_, List.mem_append_left _ (mem_diffEntries.mpr ⟨(k, v), Dict.mem_of_get?_eq_some h1,
              .inr ⟨h2, rfl⟩⟩), rfl⟩
        | none =>
            have hnot : Dict.hasKey a k = false := by rw [Dict.hasKey, h1]; rfl
            rw [hnot] at hone'
            have hkey := Dict.hasKey_iff_mem_keys.mp (Bool.of_not_eq_false fun h => hone' h.symm)
            obtain ⟨e, he, rfl⟩ := List.mem_map.mp hkey
            exact ⟨_, List.mem_append_right _ (List.mem_map.mpr ⟨e, List.mem_filter.mpr ⟨he, by rw [hnot]; rfl⟩, rfl⟩),
              rfl⟩
  · rw [printJsonDiff]
    cases s with
    | key k => exact absurd rfl hone
    | index i =>
        obtain ⟨hle, hlt⟩ := isSome_ne_iff.mp hone
        obtain ⟨line, hmem, hplace⟩ := exists_mem_tailOnly path hle hlt
        exact ⟨line, List.mem_append_right _ hmem, hplace⟩

/-- The lines of a child are printed. -/
theorem print_of_child (h1 : childAt j1 s = some v) (h2 : childAt j2 s = some w)
    (hline : line ∈ printJsonDiff v w (path.next s)) : line ∈ printJsonDiff j1 j2 path := by
  rcases childAt_cases h1 with ⟨a, k, rfl, rfl, hv⟩ | ⟨xs, i, rfl, rfl, hv⟩
  · rcases childAt_cases h2 with ⟨b, k', rfl, hs, hw⟩ | ⟨ys, i, -, hs, -⟩
    · cases hs
      rw [printJsonDiff]
      exact List.mem_append_left _ (mem_diffEntries.mpr ⟨(k, v), Dict.mem_of_get?_eq_some hv, .inl ⟨w, hw, hline⟩⟩)
    · cases hs
  · rcases childAt_cases h2 with ⟨b, k', -, hs, -⟩ | ⟨ys, i', rfl, hs, hw⟩
    · cases hs
    · cases hs
      rw [printJsonDiff]
      exact List.mem_append_left _ (mem_diffElems.mpr ⟨i, v, w, hv, hw, by rwa [Nat.zero_add]⟩)

theorem print_type_ne (htype : j1.type ≠ j2.type) :
    printJsonDiff j1 j2 path = [⟨.typeMismatch j1.typeName j2.typeName, path⟩] := by
  cases j1 <;> cases j2 <;> first | rfl | exact absurd rfl htype

theorem print_scalar (htype : j1.type = j2.type) (hcontainer : j1.isContainer = false) :
    printJsonDiff j1 j2 path = if !eq j1 j2 then [⟨.valueMismatch j1 j2, path⟩] else [] := by
  cases j1 <;> cases j2 <;> first | rfl | (cases htype; done) | cases hcontainer

/-- **A line** is about a place that is reported. -/
theorem reports_of_mem (hdistinct1 : distinct j1 = true) (hdistinct2 : distinct j2 = true)
    (h : line ∈ printJsonDiff j1 j2 path) :
    ∃ steps, line.place = path.follow steps ∧ Reports j1 j2 steps := by
  induction hsize : sizeOf j1 using Nat.strongRecOn generalizing j1 j2 path with
  | _ size ih =>
      subst hsize
      by_cases htype : j1.type = j2.type
      · cases hcontainer : j1.isContainer with
        | false =>
            rw [print_scalar htype hcontainer] at h
            cases heq : eq j1 j2 with
            | true =>
                rw [heq] at h
                cases h
            | false =>
                rw [heq] at h
                obtain rfl := List.mem_singleton.mp h
                exact ⟨[], rfl, .inr ⟨hcontainer, heq⟩⟩
        | true =>
            obtain ⟨s, ⟨hone, hplace⟩ | ⟨v, w, h1, h2, hline⟩⟩ := print_cases hdistinct1 htype hcontainer h
            · exact ⟨[s], hplace, htype, .inl ⟨hone, rfl⟩⟩
            · obtain ⟨steps, hsteps, hreports⟩ := ih _ (sizeOf_childAt h1) (distinct_of_childAt hdistinct1 h1)
                (distinct_of_childAt hdistinct2 h2) hline rfl
              exact ⟨s :: steps, hsteps, htype, .inr ⟨v, w, h1, h2, hreports⟩⟩
      · rw [print_type_ne htype] at h
        obtain rfl := List.mem_singleton.mp h
        exact ⟨[], rfl, .inl htype⟩

/-- **A place that is reported** has a line. -/
theorem exists_mem_of_reports (path : Place) (h : Reports j1 j2 steps) :
    ∃ line ∈ printJsonDiff j1 j2 path, line.place = path.follow steps := by
  induction steps generalizing j1 j2 path with
  | nil =>
      by_cases htype : j1.type = j2.type
      · obtain ⟨hcontainer, heq⟩ := h.resolve_left (not_not_intro htype)
        rw [print_scalar htype hcontainer, heq]
        exact ⟨_, List.mem_singleton_self _, rfl⟩
      · rw [print_type_ne htype]
        exact ⟨_, List.mem_singleton_self _, rfl⟩
  | cons s steps ih =>
      obtain ⟨htype, ⟨hone, rfl⟩ | ⟨v, w, h1, h2, hreports⟩⟩ := h
      · exact print_of_one path htype hone
      · obtain ⟨line, hline, hplace⟩ := ih (path.next s) hreports
        exact ⟨line, print_of_child h1 h2 hline, hplace⟩

/-! ## The report -/

/-- Lines if and only if the documents differ, which is the verdict, each about a place where they do. -/
structure Right (j1 j2 : Json) : Prop where
  lines : printJsonDiff j1 j2 ⟨"", []⟩ ≠ [] ↔ eq j1 j2 = false
  verdict : compareJsonFiles j1 j2 = none ↔ printJsonDiff j1 j2 ⟨"", []⟩ = []
  places : ∀ line ∈ printJsonDiff j1 j2 ⟨"", []⟩,
    ∃ steps, line.place = Place.follow ⟨"", []⟩ steps ∧ DiffersAt j1 j2 steps

theorem compareJsonFiles_eq_none : compareJsonFiles j1 j2 = none ↔ eq j1 j2 = true := by
  rw [compareJsonFiles]
  cases eq j1 j2 <;> simp

/-- **The report is right** if and only if numbers of the same value at one place have the same type. -/
theorem printJsonDiff_iff (j1 j2 : Json) (hdistinct1 : distinct j1 = true) (hdistinct2 : distinct j2 = true) :
    Right j1 j2 ↔ SameTypes j1 j2 := by
  constructor
  · intro hright steps v w hv hw hsame
    by_contra htype
    obtain ⟨line, hline, hplace⟩ := exists_mem_of_reports ⟨"", []⟩ (reports_of_type_ne hv hw htype)
    obtain ⟨steps', hplace', hdiffers⟩ := hright.places line hline
    have hsteps := congrArg Place.steps (hplace.symm.trans hplace')
    rw [Place.steps_follow, Place.steps_follow, List.nil_append, List.nil_append] at hsteps
    rw [← hsteps, DiffersAt, hv, hw] at hdiffers
    exact hdiffers ((eq_of_type_ne htype).trans hsame)
  · intro hsame
    have hplaces : ∀ line ∈ printJsonDiff j1 j2 ⟨"", []⟩,
        ∃ steps, line.place = Place.follow ⟨"", []⟩ steps ∧ DiffersAt j1 j2 steps := fun line hline => by
      obtain ⟨steps, hplace, hreports⟩ := reports_of_mem hdistinct1 hdistinct2 hline
      exact ⟨steps, hplace, differsAt_of_reports hsame hreports⟩
    have hlines : printJsonDiff j1 j2 ⟨"", []⟩ ≠ [] ↔ eq j1 j2 = false := by
      constructor
      · intro hne
        obtain ⟨line, hline⟩ := List.exists_mem_of_ne_nil _ hne
        obtain ⟨steps, -, hdiffers⟩ := hplaces line hline
        exact eq_false_of_differsAt hdistinct1 hdistinct2 hdiffers
      · intro heq hnil
        obtain ⟨steps, hreports⟩ := exists_reports hdistinct1 hdistinct2 heq
        obtain ⟨line, hline, -⟩ := exists_mem_of_reports ⟨"", []⟩ hreports
        rw [hnil] at hline
        cases hline
    refine ⟨hlines, ?_, hplaces⟩
    rw [compareJsonFiles_eq_none, ← not_iff_not, Bool.not_eq_true]
    exact hlines.symm

theorem printJsonDiff_iff_object :
    Right (.object [("a", .array [.null])]) (.object [("a", .array [.numberInteger (-1), .null])]) ↔
      SameTypes (.object [("a", .array [.null])]) (.object [("a", .array [.numberInteger (-1), .null])]) :=
  printJsonDiff_iff _ _ (by decide) (by decide)

/-- `{"a": 1, "b": 1}` and `{"a": 1.0, "b": 2}` have a line about `a`, where they are equal. -/
theorem printJsonDiff_wrong :
    ¬ Right (.object [("a", .numberUnsigned 1), ("b", .numberUnsigned 1)])
      (.object [("a", .numberFloat 1), ("b", .numberUnsigned 2)]) := by
  intro hright
  obtain ⟨steps, hplace, hdiffers⟩ :=
    hright.places ⟨.typeMismatch "number" "number", Place.key ⟨"", []⟩ "a"⟩ List.mem_cons_self
  have hsteps := congrArg Place.steps hplace
  rw [Place.steps_follow] at hsteps
  obtain rfl : [Step.key "a"] = steps := hsteps
  have heq : eq (.numberUnsigned 1) (.numberFloat 1) = true := by decide
  exact hdiffers heq

end Workbench.JsonDiff
