import Workbench.Python.Value

/-!
# `Json.NsFilter` — `ns_filter`

The inner function goes through the keys that a `dict` has at the start, and calls itself for the `dict`s among the
values and among the elements of the lists. It does not look into a list that is an element of a list. A call that runs
out of fuel, and a key that is not there, are `none`.

## Contents
* `nsFilter` — the function;
* `filteredDict`, `wantedDict` — what it leaves, and what it should leave;
* `nsFilter_eq` — the loops and calls leave it;
* `clean_filteredDict`, `filteredDict_eq_wanted` — where it is what it should be;
* `nsFilter_iff` — the documents that are filtered.
-/

namespace Workbench.NsFilter

open Python

/-! ## The function -/

/-- `k.split(':')[0]`. -/
def nsOf (k : String) : String := String.ofList (k.toList.takeWhile (· ≠ ':'))

/-- A key that is deleted. -/
def isForeign (namespaces : List String) (k : String) : Bool :=
  k.toList.contains ':' && !namespaces.contains (nsOf k)

/-- An element of a list. -/
def elementTurn (call : PyDict → Option PyDict) : PyVal → Option PyVal
  | .dict d => (call d).map .dict
  | l => some l

/-- A turn of the loop, with the function for the calls. The changed object is the one in `d`. -/
def keyTurn (namespaces : List String) (call : PyDict → Option PyDict) (d : PyDict) (k : String) : Option PyDict :=
  if isForeign namespaces k then
    some (d.erase k)
  else do
    match ← d.get? k with
    | .dict e => do
        let e ← call e
        return d.put k (.dict e)
    | .list xs => do
        let xs ← xs.mapM (elementTurn call)
        return d.put k (.list xs)
    | _ => return d

def nsFilter (namespaces : List String) : Nat → PyDict → Option PyDict
  | 0, _ => none
  | fuel + 1, d => d.keys.foldlM (keyTurn namespaces (nsFilter namespaces fuel)) d

/-! ## What is left -/

mutual

/-- What the function leaves of a `dict`. -/
def filteredDict (namespaces : List String) : List (String × PyVal) → List (String × PyVal)
  | [] => []
  | (k, v) :: d =>
      if isForeign namespaces k then filteredDict namespaces d
      else (k, filteredVal namespaces v) :: filteredDict namespaces d

def filteredVal (namespaces : List String) : PyVal → PyVal
  | .dict d => .dict (filteredDict namespaces d)
  | .list xs => .list (filteredElems namespaces xs)
  | v => v

/-- Only the `dict`s of a list. -/
def filteredElems (namespaces : List String) : List PyVal → List PyVal
  | [] => []
  | .dict d :: xs => .dict (filteredDict namespaces d) :: filteredElems namespaces xs
  | x :: xs => x :: filteredElems namespaces xs

end

mutual

/-- The other keys with their values, at any depth. -/
def wantedDict (namespaces : List String) : List (String × PyVal) → List (String × PyVal)
  | [] => []
  | (k, v) :: d =>
      if isForeign namespaces k then wantedDict namespaces d
      else (k, wantedVal namespaces v) :: wantedDict namespaces d

def wantedVal (namespaces : List String) : PyVal → PyVal
  | .dict d => .dict (wantedDict namespaces d)
  | .list xs => .list (wantedElems namespaces xs)
  | v => v

def wantedElems (namespaces : List String) : List PyVal → List PyVal
  | [] => []
  | x :: xs => wantedVal namespaces x :: wantedElems namespaces xs

end

mutual

/-- No key at any depth is one to delete. -/
def cleanDict (namespaces : List String) : List (String × PyVal) → Bool
  | [] => true
  | (k, v) :: d => !isForeign namespaces k && cleanVal namespaces v && cleanDict namespaces d

def cleanVal (namespaces : List String) : PyVal → Bool
  | .dict d => cleanDict namespaces d
  | .list xs => cleanElems namespaces xs
  | _ => true

def cleanElems (namespaces : List String) : List PyVal → Bool
  | [] => true
  | x :: xs => cleanVal namespaces x && cleanElems namespaces xs

end

mutual

/-- The lists in lists that are kept have no key to delete. -/
def coveredDict (namespaces : List String) : List (String × PyVal) → Bool
  | [] => true
  | (k, v) :: d => (isForeign namespaces k || coveredVal namespaces v) && coveredDict namespaces d

def coveredVal (namespaces : List String) : PyVal → Bool
  | .dict d => coveredDict namespaces d
  | .list xs => coveredElems namespaces xs
  | _ => true

def coveredElems (namespaces : List String) : List PyVal → Bool
  | [] => true
  | .dict d :: xs => coveredDict namespaces d && coveredElems namespaces xs
  | .list ys :: xs => cleanElems namespaces ys && coveredElems namespaces xs
  | _ :: xs => coveredElems namespaces xs

end

mutual

/-- No `dict` has a key twice. -/
def distinctDict : List (String × PyVal) → Bool
  | [] => true
  | (k, v) :: d => decide (k ∉ Dict.keys d) && distinctVal v && distinctDict d

def distinctVal : PyVal → Bool
  | .dict d => distinctDict d
  | .list xs => distinctElems xs
  | _ => true

def distinctElems : List PyVal → Bool
  | [] => true
  | x :: xs => distinctVal x && distinctElems xs

end

mutual

/-- How deep the `dict`s are in each other. -/
def depthDict : List (String × PyVal) → Nat
  | [] => 0
  | (_, v) :: d => max (depthVal v) (depthDict d)

def depthVal : PyVal → Nat
  | .dict d => depthDict d + 1
  | .list xs => depthElems xs
  | _ => 0

def depthElems : List PyVal → Nat
  | [] => 0
  | x :: xs => max (depthVal x) (depthElems xs)

end

variable {namespaces : List String} {k : String} {v : PyVal} {d : PyDict} {xs : List PyVal} {fuel : Nat}
  {call : PyDict → Option PyDict}

/-! ## The loops -/

theorem filteredDict_eq (namespaces : List String) (d : PyDict) : filteredDict namespaces d =
    d.filterMap fun e =>
      (if isForeign namespaces e.1 then none else some (filteredVal namespaces e.2)).map fun v => (e.1, v) := by
  induction d with
  | nil => rw [filteredDict, List.filterMap_nil]
  | cons e d ih =>
      obtain ⟨k, v⟩ := e
      rw [filteredDict, List.filterMap_cons, ih]
      by_cases h : isForeign namespaces k = true
      · rw [if_pos h, if_pos h]
        rfl
      · rw [if_neg h, if_neg h]
        rfl

theorem elementLoop_eq (hcall : ∀ e, PyVal.dict e ∈ xs → call e = some (filteredDict namespaces e)) :
    xs.mapM (elementTurn call) = some (filteredElems namespaces xs) := by
  induction xs with
  | nil => rfl
  | cons x xs ih =>
      have hrest := ih fun e he => hcall e (List.mem_cons_of_mem x he)
      rw [List.mapM_cons, hrest]
      cases x with
      | dict e =>
          rw [elementTurn, hcall e List.mem_cons_self, filteredElems]
          rfl
      | none => rfl
      | bool b => rfl
      | int i => rfl
      | float f => rfl
      | str s => rfl
      | list ys => rfl

/-- The turn of an entry leaves it without its foreign keys, or deletes it. -/
theorem keyTurn_eq {pre post : PyDict} (hpre : k ∉ Dict.keys pre) (hpost : k ∉ Dict.keys post)
    (hdict : ∀ e, v = .dict e → call e = some (filteredDict namespaces e))
    (hlist : ∀ ys, v = .list ys → ∀ e, PyVal.dict e ∈ ys → call e = some (filteredDict namespaces e)) :
    keyTurn namespaces call (pre ++ (k, v) :: post) k =
      some (pre ++ ((if isForeign namespaces k then none else some (filteredVal namespaces v)).map
        fun v => (k, v)).toList ++ post) := by
  rw [keyTurn]
  by_cases hforeign : isForeign namespaces k = true
  · rw [if_pos hforeign, if_pos hforeign, Dict.erase_append_cons hpre hpost, Option.map_none, Option.toList_none,
      List.append_nil]
  · have hkept : pre ++ (Option.map (fun v => (k, v)) (some (filteredVal namespaces v))).toList ++ post =
        pre ++ (k, filteredVal namespaces v) :: post := by
      rw [Option.map_some, Option.toList_some, List.append_assoc, List.singleton_append]
    rw [if_neg hforeign, if_neg hforeign, hkept, Dict.get?_append_cons hpre, Option.bind_eq_bind, Option.bind_some]
    cases v with
    | dict e =>
        show (call e).bind (fun e => some (Dict.put (pre ++ _ :: post) k (.dict e))) = _
        rw [hdict e rfl, Option.bind_some, Dict.put_append_cons hpre, filteredVal]
    | list ys =>
        show (ys.mapM (elementTurn call)).bind (fun ys => some (Dict.put (pre ++ _ :: post) k (.list ys))) = _
        rw [elementLoop_eq (hlist ys rfl), Option.bind_some, Dict.put_append_cons hpre, filteredVal]
    | none => rfl
    | bool b => rfl
    | int i => rfl
    | float f => rfl
    | str s => rfl

/-! ## The calls -/

theorem depth_of_mem (h : (k, v) ∈ d) : depthVal v ≤ depthDict d := by
  induction d with
  | nil => cases h
  | cons e d ih =>
      obtain ⟨k', v'⟩ := e
      rw [depthDict]
      rcases List.mem_cons.mp h with heq | hmem
      · obtain ⟨-, rfl⟩ := Prod.mk.inj heq
        exact Nat.le_max_left _ _
      · exact Nat.le_trans (ih hmem) (Nat.le_max_right _ _)

theorem depth_of_mem_elems (h : v ∈ xs) : depthVal v ≤ depthElems xs := by
  induction xs with
  | nil => cases h
  | cons x xs ih =>
      rw [depthElems]
      rcases List.mem_cons.mp h with rfl | hmem
      · exact Nat.le_max_left _ _
      · exact Nat.le_trans (ih hmem) (Nat.le_max_right _ _)

theorem distinctDict_cons : distinctDict ((k, v) :: d) = true ↔
    (k ∉ Dict.keys d ∧ distinctVal v = true) ∧ distinctDict d = true := by
  rw [distinctDict, Bool.and_eq_true, Bool.and_eq_true, decide_eq_true_eq]

theorem nodup_of_distinct (h : distinctDict d = true) : (Dict.keys d).Nodup := by
  induction d with
  | nil => exact List.nodup_nil
  | cons e d ih =>
      obtain ⟨⟨hnew, -⟩, hrest⟩ := distinctDict_cons.mp h
      exact List.nodup_cons.mpr ⟨hnew, ih hrest⟩

theorem distinct_of_mem (h : distinctDict d = true) (hmem : (k, v) ∈ d) : distinctVal v = true := by
  induction d with
  | nil => cases hmem
  | cons e d ih =>
      obtain ⟨⟨-, hv⟩, hrest⟩ := distinctDict_cons.mp h
      rcases List.mem_cons.mp hmem with heq | hmem
      · obtain ⟨-, rfl⟩ := Prod.mk.inj heq
        exact hv
      · exact ih hrest hmem

theorem distinct_of_mem_elems (h : distinctElems xs = true) (hmem : v ∈ xs) : distinctVal v = true := by
  induction xs with
  | nil => cases hmem
  | cons x xs ih =>
      rw [distinctElems, Bool.and_eq_true] at h
      rcases List.mem_cons.mp hmem with rfl | hmem
      · exact h.1
      · exact ih h.2 hmem

/-- **What the function leaves**, with fuel for its depth. -/
theorem nsFilter_eq (namespaces : List String) (hdistinct : distinctDict d = true) (hfuel : depthDict d < fuel) :
    nsFilter namespaces fuel d = some (filteredDict namespaces d) := by
  induction fuel generalizing d with
  | zero => exact absurd hfuel (Nat.not_lt_zero _)
  | succ fuel ih =>
      rw [nsFilter, filteredDict_eq]
      refine Dict.foldlM_entries _ (fun e he pre post hpre hpost => keyTurn_eq hpre hpost ?_ ?_)
        (nodup_of_distinct hdistinct)
      · intro e' heq
        have hdepth := depth_of_mem he
        have hvalue := distinct_of_mem hdistinct he
        rw [heq, depthVal] at hdepth
        rw [heq, distinctVal] at hvalue
        exact ih hvalue (by omega)
      · intro ys heq e' hmem
        have hdepth := depth_of_mem he
        have hvalue := distinct_of_mem hdistinct he
        have helement := depth_of_mem_elems hmem
        rw [heq, depthVal] at hdepth
        rw [heq, distinctVal] at hvalue
        rw [depthVal] at helement
        exact ih (distinct_of_mem_elems hvalue hmem) (by omega)

/-! ## Which documents are filtered -/

mutual

/-- **A key to delete is left** if and only if it is in a list in a list. -/
theorem clean_filteredDict (namespaces : List String) :
    ∀ d, cleanDict namespaces (filteredDict namespaces d) = coveredDict namespaces d
  | [] => rfl
  | (k, v) :: d => by
      rw [filteredDict, coveredDict]
      by_cases h : isForeign namespaces k = true
      · rw [if_pos h, clean_filteredDict namespaces d, h, Bool.true_or, Bool.true_and]
      · rw [if_neg h, cleanDict, clean_filteredVal namespaces v, clean_filteredDict namespaces d,
          Bool.eq_false_iff.mpr h, Bool.not_false, Bool.true_and, Bool.false_or]

theorem clean_filteredVal (namespaces : List String) :
    ∀ v, cleanVal namespaces (filteredVal namespaces v) = coveredVal namespaces v
  | .dict d => clean_filteredDict namespaces d
  | .list xs => clean_filteredElems namespaces xs
  | .none | .bool _ | .int _ | .float _ | .str _ => rfl

theorem clean_filteredElems (namespaces : List String) :
    ∀ xs, cleanElems namespaces (filteredElems namespaces xs) = coveredElems namespaces xs
  | [] => rfl
  | .dict d :: xs => by
      rw [filteredElems, coveredElems, cleanElems, cleanVal, clean_filteredDict namespaces d,
        clean_filteredElems namespaces xs]
  | .list ys :: xs => congrArg (cleanElems namespaces ys && ·) (clean_filteredElems namespaces xs)
  | .none :: xs | .bool _ :: xs | .int _ :: xs | .float _ :: xs | .str _ :: xs => clean_filteredElems namespaces xs

end

mutual

/-- Nothing has to be deleted. -/
theorem wantedDict_of_clean : ∀ d, cleanDict namespaces d = true → wantedDict namespaces d = d
  | [], _ => rfl
  | (k, v) :: d, h => by
      rw [cleanDict, Bool.and_eq_true, Bool.and_eq_true, Bool.not_eq_true'] at h
      rw [wantedDict, if_neg (by rw [h.1.1]; exact Bool.false_ne_true), wantedVal_of_clean v h.1.2,
        wantedDict_of_clean d h.2]

theorem wantedVal_of_clean : ∀ v, cleanVal namespaces v = true → wantedVal namespaces v = v
  | .dict d, h => congrArg PyVal.dict (wantedDict_of_clean d h)
  | .list xs, h => congrArg PyVal.list (wantedElems_of_clean xs h)
  | .none, _ | .bool _, _ | .int _, _ | .float _, _ | .str _, _ => rfl

theorem wantedElems_of_clean : ∀ xs, cleanElems namespaces xs = true → wantedElems namespaces xs = xs
  | [], _ => rfl
  | x :: xs, h => by
      rw [cleanElems, Bool.and_eq_true] at h
      rw [wantedElems, wantedVal_of_clean x h.1, wantedElems_of_clean xs h.2]

end

mutual

theorem filteredDict_eq_wanted : ∀ d, coveredDict namespaces d = true →
    filteredDict namespaces d = wantedDict namespaces d
  | [], _ => rfl
  | (k, v) :: d, h => by
      rw [coveredDict, Bool.and_eq_true, Bool.or_eq_true] at h
      rw [filteredDict, wantedDict, filteredDict_eq_wanted d h.2]
      by_cases hforeign : isForeign namespaces k = true
      · rw [if_pos hforeign, if_pos hforeign]
      · rw [if_neg hforeign, if_neg hforeign, filteredVal_eq_wanted v (h.1.resolve_left hforeign)]

theorem filteredVal_eq_wanted : ∀ v, coveredVal namespaces v = true →
    filteredVal namespaces v = wantedVal namespaces v
  | .dict d, h => congrArg PyVal.dict (filteredDict_eq_wanted d h)
  | .list xs, h => congrArg PyVal.list (filteredElems_eq_wanted xs h)
  | .none, _ | .bool _, _ | .int _, _ | .float _, _ | .str _, _ => rfl

theorem filteredElems_eq_wanted : ∀ xs, coveredElems namespaces xs = true →
    filteredElems namespaces xs = wantedElems namespaces xs
  | [], _ => rfl
  | .dict d :: xs, h => by
      rw [coveredElems, Bool.and_eq_true] at h
      rw [filteredElems, wantedElems, wantedVal, filteredDict_eq_wanted d h.1, filteredElems_eq_wanted xs h.2]
  | .list ys :: xs, h => by
      rw [coveredElems, Bool.and_eq_true] at h
      rw [wantedElems, wantedVal, wantedElems_of_clean ys h.1, ← filteredElems_eq_wanted xs h.2]
      rfl
  | .none :: xs, h | .bool _ :: xs, h | .int _ :: xs, h | .float _ :: xs, h | .str _ :: xs, h =>
      congrArg (_ :: ·) (filteredElems_eq_wanted xs h)

end

mutual

/-- What is left of a document is clean or not, but not to be filtered again. -/
theorem filteredDict_filteredDict (namespaces : List String) :
    ∀ d, filteredDict namespaces (filteredDict namespaces d) = filteredDict namespaces d
  | [] => rfl
  | (k, v) :: d => by
      rw [filteredDict]
      by_cases h : isForeign namespaces k = true
      · rw [if_pos h, filteredDict_filteredDict namespaces d]
      · rw [if_neg h, filteredDict, if_neg h, filteredVal_filteredVal namespaces v,
          filteredDict_filteredDict namespaces d]

theorem filteredVal_filteredVal (namespaces : List String) :
    ∀ v, filteredVal namespaces (filteredVal namespaces v) = filteredVal namespaces v
  | .dict d => congrArg PyVal.dict (filteredDict_filteredDict namespaces d)
  | .list xs => congrArg PyVal.list (filteredElems_filteredElems namespaces xs)
  | .none | .bool _ | .int _ | .float _ | .str _ => rfl

theorem filteredElems_filteredElems (namespaces : List String) :
    ∀ xs, filteredElems namespaces (filteredElems namespaces xs) = filteredElems namespaces xs
  | [] => rfl
  | .dict d :: xs => by
      rw [filteredElems, filteredElems, filteredDict_filteredDict namespaces d,
        filteredElems_filteredElems namespaces xs]
  | .list _ :: xs | .none :: xs | .bool _ :: xs | .int _ :: xs | .float _ :: xs | .str _ :: xs =>
      congrArg (_ :: ·) (filteredElems_filteredElems namespaces xs)

end

theorem keys_filteredDict (h : k ∈ Dict.keys (filteredDict namespaces d)) : k ∈ Dict.keys d := by
  induction d with
  | nil => exact h
  | cons e d ih =>
      obtain ⟨k', v⟩ := e
      rw [filteredDict] at h
      by_cases hforeign : isForeign namespaces k' = true
      · rw [if_pos hforeign] at h
        exact List.mem_cons_of_mem _ (ih h)
      · rw [if_neg hforeign] at h
        rcases List.mem_cons.mp h with rfl | h
        · exact List.mem_cons_self
        · exact List.mem_cons_of_mem _ (ih h)

mutual

theorem distinct_filteredDict (namespaces : List String) :
    ∀ d, distinctDict d = true → distinctDict (filteredDict namespaces d) = true
  | [], _ => rfl
  | (k, v) :: d, h => by
      obtain ⟨⟨hnew, hv⟩, hrest⟩ := distinctDict_cons.mp h
      rw [filteredDict]
      by_cases hforeign : isForeign namespaces k = true
      · rw [if_pos hforeign]
        exact distinct_filteredDict namespaces d hrest
      · rw [if_neg hforeign]
        exact distinctDict_cons.mpr ⟨⟨fun hmem => hnew (keys_filteredDict hmem),
          distinct_filteredVal namespaces v hv⟩, distinct_filteredDict namespaces d hrest⟩

theorem distinct_filteredVal (namespaces : List String) :
    ∀ v, distinctVal v = true → distinctVal (filteredVal namespaces v) = true
  | .dict d, h => distinct_filteredDict namespaces d h
  | .list xs, h => distinct_filteredElems namespaces xs h
  | .none, _ | .bool _, _ | .int _, _ | .float _, _ | .str _, _ => rfl

theorem distinct_filteredElems (namespaces : List String) :
    ∀ xs, distinctElems xs = true → distinctElems (filteredElems namespaces xs) = true
  | [], _ => rfl
  | .dict d :: xs, h => by
      rw [distinctElems, Bool.and_eq_true] at h
      rw [filteredElems, distinctElems, Bool.and_eq_true]
      exact ⟨distinct_filteredDict namespaces d h.1, distinct_filteredElems namespaces xs h.2⟩
  | .list _ :: xs, h | .none :: xs, h | .bool _ :: xs, h | .int _ :: xs, h | .float _ :: xs, h | .str _ :: xs, h => by
      rw [distinctElems, Bool.and_eq_true] at h
      exact Bool.and_eq_true_iff.mpr ⟨h.1, distinct_filteredElems namespaces xs h.2⟩

end

mutual

theorem depth_filteredDict (namespaces : List String) : ∀ d, depthDict (filteredDict namespaces d) ≤ depthDict d
  | [] => Nat.le_refl _
  | (k, v) :: d => by
      have hv := depth_filteredVal namespaces v
      have hrest := depth_filteredDict namespaces d
      rw [filteredDict, depthDict]
      by_cases hforeign : isForeign namespaces k = true
      · rw [if_pos hforeign]
        omega
      · rw [if_neg hforeign, depthDict]
        omega

theorem depth_filteredVal (namespaces : List String) : ∀ v, depthVal (filteredVal namespaces v) ≤ depthVal v
  | .dict d => Nat.succ_le_succ (depth_filteredDict namespaces d)
  | .list xs => depth_filteredElems namespaces xs
  | .none | .bool _ | .int _ | .float _ | .str _ => Nat.le_refl _

theorem depth_filteredElems (namespaces : List String) :
    ∀ xs, depthElems (filteredElems namespaces xs) ≤ depthElems xs
  | [] => Nat.le_refl _
  | .dict d :: xs => by
      have hd := depth_filteredDict namespaces d
      have hrest := depth_filteredElems namespaces xs
      rw [filteredElems, depthElems, depthElems, depthVal, depthVal]
      omega
  | .list _ :: xs | .none :: xs | .bool _ :: xs | .int _ :: xs | .float _ :: xs | .str _ :: xs =>
      max_le_max (Nat.le_refl _) (depth_filteredElems namespaces xs)

end

/-- The other keys and nothing else, which is clean. -/
def Filters (namespaces : List String) (d d' : PyDict) : Prop :=
  cleanDict namespaces d' = true ∧ d' = wantedDict namespaces d

/-- **A document is filtered** if and only if the lists in lists that are kept have no key to delete. Filtering again
    changes nothing in any case. -/
theorem nsFilter_iff (namespaces : List String) (d : PyDict) (fuel : Nat) (hdistinct : distinctDict d = true)
    (hfuel : depthDict d < fuel) :
    ∃ d', nsFilter namespaces fuel d = some d' ∧ nsFilter namespaces fuel d' = some d' ∧
      (Filters namespaces d d' ↔ coveredDict namespaces d = true) := by
  have hagain := nsFilter_eq namespaces (distinct_filteredDict namespaces d hdistinct)
    (Nat.lt_of_le_of_lt (depth_filteredDict namespaces d) hfuel)
  rw [filteredDict_filteredDict] at hagain
  refine ⟨filteredDict namespaces d, nsFilter_eq namespaces hdistinct hfuel, hagain, ?_⟩
  rw [Filters, clean_filteredDict]
  exact ⟨And.left, fun h => ⟨h, filteredDict_eq_wanted d h⟩⟩

theorem nsFilter_iff_nested :
    ∃ d', nsFilter ["a"] 3 [("a:x", .list [.dict [("b:y", .int 1), ("z", .none)]])] = some d' ∧
      nsFilter ["a"] 3 d' = some d' ∧
      (Filters ["a"] [("a:x", .list [.dict [("b:y", .int 1), ("z", .none)]])] d' ↔
        coveredDict ["a"] [("a:x", .list [.dict [("b:y", .int 1), ("z", .none)]])] = true) :=
  nsFilter_iff ["a"] [("a:x", .list [.dict [("b:y", .int 1), ("z", .none)]])] 3 (by decide) (by decide)

/-- A `dict` in a list in a list. -/
theorem nsFilter_leaves :
    ∃ d', nsFilter ["a"] 4 [("x", .list [.list [.dict [("b:y", .int 1)]]])] = some d' ∧ cleanDict ["a"] d' = false :=
  ⟨[("x", .list [.list [.dict [("b:y", .int 1)]]])], rfl, by decide⟩

end Workbench.NsFilter
