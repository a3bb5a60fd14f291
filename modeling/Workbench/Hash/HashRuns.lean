import Mathlib.Data.Set.Card
import Mathlib.Logic.Function.Basic
import Workbench.Hash.Hash
import Workbench.Lib.Refines

/-!
# `Hash.HashRuns` — the table is a map from classes to data

Data that match are one class. A class has at most one element in the table, in the list at its hash.

## Main results
* `hash_is_a_map` — each call answers as the map does, and where the elements are.
-/

namespace Workbench.Hash

open DoublyLinked

/-- **A hash function and a match function that fit.** -/
structure Hashing (α : Type) where
  hashFunc : α → Nat
  matchFunc : α → α → Int
  capacity : Nat
  positive : 0 < capacity
  bounded (x : α) : hashFunc x < capacity
  equivalence : Equivalence fun x y => matchFunc x y ≠ 0
  compatible (x y : α) : matchFunc x y ≠ 0 → hashFunc x = hashFunc y

namespace Hashing

variable {α : Type} (H : Hashing α)

def setoid : Setoid α := ⟨fun x y => H.matchFunc x y ≠ 0, H.equivalence⟩

/-- The classes of data that match. -/
def Class : Type := Quotient H.setoid

instance : DecidableEq H.Class :=
  have (x y : α) : Decidable (H.setoid.r x y) := inferInstanceAs (Decidable (H.matchFunc x y ≠ 0))
  inferInstanceAs (DecidableEq (Quotient H.setoid))

def classOf (x : α) : H.Class := Quotient.mk H.setoid x

theorem classOf_eq {x y : α} : H.classOf x = H.classOf y ↔ H.matchFunc x y ≠ 0 :=
  ⟨Quotient.exact, fun h => Quotient.sound h⟩

theorem hash_eq {x y : α} (h : H.classOf x = H.classOf y) : H.hashFunc x = H.hashFunc y :=
  H.compatible x y (H.classOf_eq.mp h)

end Hashing

variable {α : Type}

/-- `new` is the address that `malloc` returns. -/
inductive Call (α : Type)
  | insert (data : α) (new : Option Nat)
  | remove (data : α)
  | find (data : α)
  | size
  | isEmpty

inductive Answer (α : Type)
  | status (n : Int)
  | done
  | data (data : Option α)
  | size (n : Nat)
  | isEmpty (b : Bool)

def exec (hashTable : HashTable α) : Call α → Option (HashTable α × Answer α)
  | .insert data new => do
      let (hashTable, n) ← hashInsert hashTable data new
      return (hashTable, .status n)
  | .remove data => do
      let hashTable ← hashRemove hashTable data
      return (hashTable, .done)
  | .find data => do
      let found ← hashFind hashTable data
      return (hashTable, .data found)
  | .size => do
      let n ← hashSize hashTable
      return (hashTable, .size n)
  | .isEmpty => do
      let b ← hashIsEmpty hashTable
      return (hashTable, .isEmpty b)

/-- The data that were inserted last, for each class that was not removed since. -/
abbrev Latest (H : Hashing α) := H.Class → Option α

/-- The classes that are present. -/
def present {H : Hashing α} (latest : Latest H) : Set H.Class := { c | (latest c).isSome }

/-- The map. Data of a class that is not present need an allocation. -/
noncomputable def answer {H : Hashing α} (latest : Latest H) : Call α → Latest H × Answer α
  | .insert data new =>
      if (latest (H.classOf data)).isSome ∨ new.isSome then
        (Function.update latest (H.classOf data) (some data), .status 1)
      else
        (latest, .status 0)
  | .remove data => (Function.update latest (H.classOf data) none, .done)
  | .find data => (latest, .data (latest (H.classOf data)))
  | .size => (latest, .size (present latest).ncard)
  | .isEmpty => (latest, .isEmpty ((present latest).ncard = 0))

/-- `malloc` returns an address that is free. -/
def Allowed {H : Hashing α} (hashTable : HashTable α) (_ : Latest H) : Call α → Prop
  | .insert _ new => ∀ address, new = some address → ∀ list ∈ hashTable.hashArr, deref list (.node address) = none
  | _ => True

def hashComponent (H : Hashing α) : Component (HashTable α) (Call α) (Answer α) where
  init hashTable := hashTable = hashCreate H.hashFunc H.matchFunc H.capacity
  exec := exec

noncomputable def mapModel (H : Hashing α) : Model (Latest H) (Call α) (Answer α) where
  init := fun _ => none
  answer := answer

/-! ## The elements -/

/-- **The elements of the table**: in the list at their hash, and one for each class. -/
structure Elements (H : Hashing α) (hashTable : HashTable α) (elements : Nat → List (Nat × α)) : Prop where
  functions : hashTable.hashFunc = H.hashFunc ∧ hashTable.matchFunc = H.matchFunc ∧ hashTable.capacity = H.capacity
  length : hashTable.hashArr.length = H.capacity
  holds : ∀ i list, hashTable.hashArr[i]? = some list → Holds list (elements i)
  hash : ∀ i, ∀ e ∈ elements i, H.hashFunc e.2 = i
  unique : ∀ i, ((elements i).map fun e => H.classOf e.2).Nodup

/-- The data of a class in a list. -/
def lookup (H : Hashing α) (xs : List (Nat × α)) (data : α) : Option α :=
  (xs.find? fun e => H.matchFunc e.2 data ≠ 0).map Prod.snd

/-- The map has what is in the table. -/
def Maps (H : Hashing α) (hashTable : HashTable α) (latest : Latest H) : Prop :=
  ∃ elements, Elements H hashTable elements ∧
    ∀ data, latest (H.classOf data) = lookup H (elements (H.hashFunc data)) data

variable {H : Hashing α} {hashTable : HashTable α} {elements : Nat → List (Nat × α)} {latest : Latest H} {data : α}
  {list : Dlist α} {xs before rest : List (Nat × α)} {e : Nat × α} {i : Nat}

theorem Elements.listAt (h : Elements H hashTable elements) (data : α) :
    ∃ list, hashTable.hashArr[H.hashFunc data]? = some list ∧ Holds list (elements (H.hashFunc data)) := by
  have hlt : H.hashFunc data < hashTable.hashArr.length := h.length ▸ H.bounded data
  have hget := List.getElem?_eq_getElem hlt
  exact ⟨_, hget, h.holds _ _ hget⟩

/-- **One list changes.** -/
theorem Elements.setList (h : Elements H hashTable elements) (hholds : Holds list xs)
    (hhash : ∀ e ∈ xs, H.hashFunc e.2 = i) (hunique : (xs.map fun e => H.classOf e.2).Nodup) :
    Elements H (setList hashTable i list) (Function.update elements i xs) := by
  refine ⟨h.functions, ?_, fun j list' hj => ?_, fun j e he => ?_, fun j => ?_⟩
  · exact List.length_set.trans h.length
  · by_cases hij : j = i
    · subst hij
      rw [Function.update_self]
      have hlt : j < hashTable.hashArr.length := by
        by_contra hge
        have hnone : (hashTable.hashArr.set j list)[j]? = none := by
          rw [List.getElem?_eq_none_iff, List.length_set]
          omega
        have hj : (hashTable.hashArr.set j list)[j]? = some list' := hj
        rw [hnone] at hj
        cases hj
      have hj : (hashTable.hashArr.set j list)[j]? = some list' := hj
      rw [List.getElem?_set_self hlt] at hj
      exact Option.some.inj hj ▸ hholds
    · rw [Function.update_of_ne hij]
      have hj : (hashTable.hashArr.set i list)[j]? = some list' := hj
      rw [List.getElem?_set_ne (Ne.symm hij)] at hj
      exact h.holds j list' hj
  · by_cases hij : j = i
    · subst hij
      rw [Function.update_self] at he
      exact hhash e he
    · rw [Function.update_of_ne hij] at he
      exact h.hash j e he
  · by_cases hij : j = i
    · subst hij
      rw [Function.update_self]
      exact hunique
    · rw [Function.update_of_ne hij]
      exact h.unique j

/-- A list changes at one class only. -/
theorem lookup_update (hlatest : ∀ k, latest (H.classOf k) = lookup H (elements (H.hashFunc k)) k) {found : Option α}
    (hself : ∀ k, H.classOf k = H.classOf data → lookup H xs k = found)
    (hother : ∀ k, H.classOf k ≠ H.classOf data → H.hashFunc k = H.hashFunc data →
      lookup H xs k = lookup H (elements (H.hashFunc data)) k) (k : α) :
    Function.update latest (H.classOf data) found (H.classOf k) =
      lookup H (Function.update elements (H.hashFunc data) xs (H.hashFunc k)) k := by
  by_cases hclass : H.classOf k = H.classOf data
  · rw [hclass, Function.update_self, H.hash_eq hclass, Function.update_self, hself k hclass]
  · rw [Function.update_of_ne hclass, hlatest]
    by_cases hhash : H.hashFunc k = H.hashFunc data
    · rw [hhash, Function.update_self, hother k hclass hhash]
    · rw [Function.update_of_ne hhash]

/-! ## Lookups -/

theorem lookup_append (xs ys : List (Nat × α)) (data : α) :
    lookup H (xs ++ ys) data = (lookup H xs data).or (lookup H ys data) := by
  unfold lookup
  rw [List.find?_append]
  cases xs.find? fun e => decide (H.matchFunc e.2 data ≠ 0) with
  | none => rfl
  | some e => rfl

theorem lookup_cons (e : Nat × α) (xs : List (Nat × α)) (data : α) :
    lookup H (e :: xs) data = if H.classOf e.2 = H.classOf data then some e.2 else lookup H xs data := by
  unfold lookup
  by_cases h : H.classOf e.2 = H.classOf data
  · rw [if_pos h, List.find?_cons_of_pos (by exact decide_eq_true (H.classOf_eq.mp h)), Option.map_some]
  · rw [if_neg h, List.find?_cons_of_neg (by simpa using fun hmatch => h (H.classOf_eq.mpr hmatch))]

theorem lookup_none (h : ∀ e ∈ xs, H.classOf e.2 ≠ H.classOf data) : lookup H xs data = none := by
  unfold lookup
  rw [Option.map_eq_none_iff, List.find?_eq_none]
  intro e he
  simpa using fun hmatch => h e he (H.classOf_eq.mpr hmatch)

/-- In a list with an element of the class. -/
theorem lookup_middle (hbefore : ∀ u ∈ before, H.classOf u.2 ≠ H.classOf e.2) {k : α}
    (hk : H.classOf k = H.classOf e.2) : lookup H (before ++ e :: rest) k = some e.2 := by
  rw [lookup_append, lookup_none fun u hu => hk ▸ hbefore u hu, Option.none_or, lookup_cons, if_pos hk.symm]

/-- Another element does not matter. -/
theorem lookup_skip {k : α} (hk : H.classOf e.2 ≠ H.classOf k) :
    lookup H (before ++ e :: rest) k = lookup H (before ++ rest) k := by
  rw [lookup_append, lookup_cons, if_neg hk, lookup_append]

/-- The elements of a list that are in front of the first match, and behind it, are of other classes. -/
theorem unique_middle (h : ((before ++ e :: rest).map fun e => H.classOf e.2).Nodup) :
    ∀ u ∈ before ++ rest, H.classOf u.2 ≠ H.classOf e.2 := by
  rw [List.map_append, List.map_cons, List.nodup_middle, List.nodup_cons, ← List.map_append] at h
  intro u hu heq
  exact h.1 (List.mem_map.mpr ⟨u, hu, heq⟩)

/-! ## The calls -/

/-- The list of some data, and the first match in it. -/
theorem Elements.find_cases (h : Elements H hashTable elements) (data : α) :
    ∃ list, hashTable.hashArr[H.hashFunc data]? = some list ∧ Holds list (elements (H.hashFunc data)) ∧
      dlistBegin list = some (first (elements (H.hashFunc data))) ∧
      ((∀ u ∈ elements (H.hashFunc data), H.classOf u.2 ≠ H.classOf data) ∧
        dlistFind list (first (elements (H.hashFunc data))) .endDummy hashTable.matchFunc data = some .endDummy ∨
      ∃ before e rest, elements (H.hashFunc data) = before ++ e :: rest ∧ H.classOf e.2 = H.classOf data ∧
        dlistFind list (first (elements (H.hashFunc data))) .endDummy hashTable.matchFunc data =
          some (.node e.1)) := by
  obtain ⟨list, hget, hholds⟩ := h.listAt data
  refine ⟨list, hget, hholds, hholds.begin, ?_⟩
  rw [h.functions.2.1]
  rcases match_cases H.matchFunc data (elements (H.hashFunc data)) with hnone | ⟨before, e, rest, hsplit, hbefore, he⟩
  · exact .inl ⟨fun u hu heq => H.classOf_eq.mp heq (hnone u hu), dlistFind_none hholds hnone⟩
  · refine .inr ⟨before, e, rest, hsplit, H.classOf_eq.mpr he, ?_⟩
    rw [hsplit] at hholds ⊢
    exact dlistFind_some hholds hbefore he

theorem setList_same (h : hashTable.hashArr[i]? = some list) : setList hashTable i list = hashTable := by
  obtain ⟨hlt, rfl⟩ := List.getElem?_eq_some_iff.mp h
  unfold setList
  rw [List.set_getElem_self]

theorem Maps.insert (h : Maps H hashTable latest) (data : α) (new : Option Nat)
    (hnew : ∀ address, new = some address → ∀ list ∈ hashTable.hashArr, deref list (.node address) = none) :
    ((latest (H.classOf data)).isSome ∨ new.isSome) ∧
      (∃ hashTable', hashInsert hashTable data new = some (hashTable', 1) ∧
        Maps H hashTable' (Function.update latest (H.classOf data) (some data))) ∨
      ¬ ((latest (H.classOf data)).isSome ∨ new.isSome) ∧ hashInsert hashTable data new = some (hashTable, 0) := by
  obtain ⟨elements, helements, hlatest⟩ := h
  obtain ⟨list, hget, hholds, hbegin, hcases⟩ := helements.find_cases data
  rcases hcases with ⟨hnone, hfind⟩ | ⟨before, e, rest, hsplit, he, hfind⟩
  · have habsent : latest (H.classOf data) = none := (hlatest data).trans (lookup_none hnone)
    cases new with
    | none =>
        refine .inr ⟨by simp [habsent], ?_⟩
        simp only [hashInsert, hget, hbegin, hfind, bind, Option.bind_some, dlistEnd, ne_eq, not_true_eq_false,
          if_false, dlistPushBack, dlistInsert, if_true, pure, setList_same hget, helements.functions.1]
    | some address =>
        have hfree := hnew address rfl list (List.mem_of_getElem? hget)
        have hend : Holds list (elements (H.hashFunc data) ++ []) := by rwa [List.append_nil]
        obtain ⟨list', hpush, hholds'⟩ := hend.insert hfree data
        have hpush : dlistPushBack list data (some address) = some (list', .node address) := hpush
        refine .inl ⟨.inr rfl, setList hashTable (H.hashFunc data) list', ?_, _,
          helements.setList hholds' (fun u hu => ?_) ?_, fun k => ?_⟩
        · simp only [hashInsert, hget, hbegin, hfind, bind, Option.bind_some, dlistEnd, ne_eq, not_true_eq_false,
            if_false, hpush, reduceCtorEq, pure, helements.functions.1]
        · rcases List.mem_append.mp hu with hu | hu
          · exact helements.hash _ u hu
          · rw [List.mem_singleton.mp hu]
        · rw [List.map_append, List.map_cons, List.nodup_middle, List.nodup_cons, List.map_nil, List.append_nil]
          refine ⟨fun hmem => ?_, helements.unique _⟩
          obtain ⟨u, hu, heq⟩ := List.mem_map.mp hmem
          exact hnone u hu heq
        · refine lookup_update hlatest (fun k hk => lookup_middle (e := (address, data)) hnone hk) (fun k hk _ => ?_) k
          · rw [lookup_skip (Ne.symm hk), List.append_nil]
  · -- the class is present, and its element is overwritten
    have hpresent : latest (H.classOf data) = some e.2 := by
      have hunique := helements.unique (H.hashFunc data)
      rw [hsplit] at hunique
      rw [hlatest, hsplit]
      exact lookup_middle (fun u hu => unique_middle hunique u (List.mem_append_left _ hu)) he.symm
    have hunique := helements.unique (H.hashFunc data)
    have hhash := helements.hash (H.hashFunc data)
    rw [hsplit] at hholds hunique hhash
    obtain ⟨list', hset, hholds'⟩ := hholds.setData data
    refine .inl ⟨.inl (by rw [hpresent]; rfl), setList hashTable (H.hashFunc data) list', ?_, _,
      helements.setList hholds' (fun u hu => ?_) ?_, fun k => ?_⟩
    · simp only [hashInsert, hget, hbegin, hfind, bind, Option.bind_some, dlistEnd, ne_eq, reduceCtorEq,
        not_false_eq_true, if_true, hset, pure, helements.functions.1]
    · rcases List.mem_append.mp hu with hu | hu
      · exact hhash u (List.mem_append_left _ hu)
      · rcases List.mem_cons.mp hu with rfl | hu
        · rfl
        · exact hhash u (List.mem_append_right _ (List.mem_cons_of_mem _ hu))
    · rwa [List.map_append, List.map_cons, ← he, ← List.map_cons (f := fun e : Nat × α => H.classOf e.2),
        ← List.map_append]
    · refine lookup_update hlatest (fun k hk => ?_) (fun k hk _ => ?_) k
      · exact lookup_middle (fun u hu => he ▸ unique_middle hunique u (List.mem_append_left _ hu)) hk
      · rw [lookup_skip (Ne.symm hk), hsplit, lookup_skip (he ▸ Ne.symm hk)]

theorem Maps.remove (h : Maps H hashTable latest) (data : α) :
    ∃ hashTable', hashRemove hashTable data = some hashTable' ∧
      Maps H hashTable' (Function.update latest (H.classOf data) none) := by
  obtain ⟨elements, helements, hlatest⟩ := id h
  obtain ⟨list, hget, hholds, hbegin, hcases⟩ := helements.find_cases data
  rcases hcases with ⟨hnone, hfind⟩ | ⟨before, e, rest, hsplit, he, hfind⟩
  · have habsent : latest (H.classOf data) = none := (hlatest data).trans (lookup_none hnone)
    refine ⟨hashTable, ?_, ?_⟩
    · simp only [hashRemove, findData, helements.functions.1, hget, hbegin, hfind, bind, Option.bind_some, dlistEnd,
        if_true, pure]
    · rw [← habsent, Function.update_eq_self]
      exact h
  · have hunique := helements.unique (H.hashFunc data)
    have hhash := helements.hash (H.hashFunc data)
    rw [hsplit] at hholds hunique hhash
    obtain ⟨list', hremove, hholds', -⟩ := hholds.remove
    have hsublist : (before ++ rest).Sublist (before ++ e :: rest) :=
      (List.Sublist.refl _).append (List.sublist_cons_self _ _)
    refine ⟨setList hashTable (H.hashFunc data) list', ?_, _,
      helements.setList hholds' (fun u hu => hhash u (hsublist.subset hu)) (hunique.sublist (hsublist.map _)),
      fun k => ?_⟩
    · simp only [hashRemove, findData, helements.functions.1, hget, hbegin, hfind, bind, Option.bind_some, dlistEnd,
        reduceCtorEq, if_false, hremove, pure]
    · refine lookup_update hlatest (fun k hk => ?_) (fun k hk _ => ?_) k
      · refine lookup_none fun u hu => ?_
        rw [hk, ← he]
        exact unique_middle hunique u hu
      · rw [hsplit, lookup_skip (he ▸ Ne.symm hk)]

theorem Maps.find (h : Maps H hashTable latest) (data : α) :
    hashFind hashTable data = some (latest (H.classOf data)) := by
  obtain ⟨elements, helements, hlatest⟩ := h
  obtain ⟨list, hget, hholds, hbegin, hcases⟩ := helements.find_cases data
  rcases hcases with ⟨hnone, hfind⟩ | ⟨before, e, rest, hsplit, he, hfind⟩
  · rw [hlatest, lookup_none hnone]
    simp only [hashFind, findData, helements.functions.1, hget, hbegin, hfind, bind, Option.bind_some, dlistEnd,
      if_true, pure]
  · have hunique := helements.unique (H.hashFunc data)
    rw [hsplit] at hholds hunique
    have hbefore : ∀ u ∈ before, H.classOf u.2 ≠ H.classOf e.2 := fun u hu =>
      unique_middle hunique u (List.mem_append_left _ hu)
    rw [hlatest, hsplit, lookup_middle hbefore he.symm]
    simp only [hashFind, findData, helements.functions.1, hget, hbegin, hfind, bind, Option.bind_some, dlistEnd,
      reduceCtorEq, if_false, hholds.node.2.2, pure]

/-! ## The size -/

theorem hashSizeLoop_eq (h : Elements H hashTable elements) {left : Nat} (hleft : i + left = H.capacity) (count : Nat) :
    hashSizeLoop hashTable left i count = some (count + ((List.range' i left).flatMap elements).length) := by
  induction left generalizing i count with
  | zero => rfl
  | succ left ih =>
      have hlt : i < hashTable.hashArr.length := by
        rw [h.length]
        omega
      have hget := List.getElem?_eq_getElem hlt
      have hsize := (h.holds i _ hget).size
      simp only [hashSizeLoop, hget, hsize, bind, Option.bind_some]
      rw [ih (by omega), List.range'_succ, List.flatMap_cons, List.length_append, Nat.add_assoc]

/-- All elements, list by list. -/
def allElements (H : Hashing α) (elements : Nat → List (Nat × α)) : List (Nat × α) :=
  (List.range' 0 H.capacity).flatMap elements

theorem Elements.nodup (h : Elements H hashTable elements) :
    ((allElements H elements).map fun e => H.classOf e.2).Nodup := by
  unfold allElements
  rw [List.map_flatMap, List.nodup_flatMap]
  refine ⟨fun i _ => h.unique i, List.Pairwise.imp (fun {i j} hne => ?_) (List.nodup_range' (h := Nat.one_pos))⟩
  -- elements of different lists have different hashes
  intro c hc hc'
  obtain ⟨u, hu, rfl⟩ := List.mem_map.mp hc
  obtain ⟨v, hv, heq⟩ := List.mem_map.mp hc'
  refine hne ?_
  rw [← h.hash i u hu, ← h.hash j v hv, H.hash_eq heq]

/-- **The classes that are present** are those of the elements. -/
theorem Elements.present_eq (h : Elements H hashTable elements)
    (hlatest : ∀ k, latest (H.classOf k) = lookup H (elements (H.hashFunc k)) k) :
    present latest = { c | c ∈ (allElements H elements).map fun e => H.classOf e.2 } := by
  ext c
  obtain ⟨k, rfl⟩ : ∃ k, H.classOf k = c := Quotient.exists_rep c
  show (latest (H.classOf k)).isSome ↔ H.classOf k ∈ (allElements H elements).map fun e => H.classOf e.2
  rw [hlatest]
  constructor
  · intro hsome
    unfold lookup at hsome
    rw [Option.isSome_map, List.find?_isSome] at hsome
    obtain ⟨e, he, hmatch⟩ := hsome
    refine List.mem_map.mpr ⟨e, List.mem_flatMap.mpr ⟨_, ?_, he⟩, H.classOf_eq.mpr (of_decide_eq_true hmatch)⟩
    exact List.mem_range'_1.mpr ⟨Nat.zero_le _, by simpa using H.bounded k⟩
  · intro hmem
    obtain ⟨e, he, hclass⟩ := List.mem_map.mp hmem
    obtain ⟨j, -, hj⟩ := List.mem_flatMap.mp he
    unfold lookup
    rw [Option.isSome_map, List.find?_isSome]
    refine ⟨e, ?_, decide_eq_true (H.classOf_eq.mp hclass)⟩
    rwa [← H.hash_eq hclass, h.hash j e hj]

theorem Maps.size (h : Maps H hashTable latest) : hashSize hashTable = some (present latest).ncard := by
  obtain ⟨elements, helements, hlatest⟩ := h
  have hnodup := helements.nodup
  have hset : present latest = ((allElements H elements).map fun e => H.classOf e.2).toFinset := by
    rw [helements.present_eq hlatest, List.coe_toFinset]
  rw [hset, Set.ncard_coe_finset, List.toFinset_card_of_nodup hnodup, List.length_map, hashSize,
    helements.functions.2.2, hashSizeLoop_eq helements (Nat.zero_add _), Nat.zero_add]
  rfl

/-! ## Runs -/

/-- **One call** answers as the map does. -/
theorem Maps.exec (h : Maps H hashTable latest) {call : Call α} (hallowed : Allowed hashTable latest call) :
    ∃ hashTable', exec hashTable call = some (hashTable', (answer latest call).2) ∧
      Maps H hashTable' (answer latest call).1 := by
  cases call with
  | insert data new =>
      rcases h.insert data new hallowed with ⟨hyes, hashTable', hinsert, hmaps⟩ | ⟨hno, hinsert⟩
      · refine ⟨hashTable', ?_, ?_⟩
        · simp only [Hash.exec, hinsert, bind, Option.bind_some, pure, answer, if_pos hyes]
        · simpa only [answer, if_pos hyes] using hmaps
      · refine ⟨hashTable, ?_, ?_⟩
        · simp only [Hash.exec, hinsert, bind, Option.bind_some, pure, answer, if_neg hno]
        · simpa only [answer, if_neg hno] using h
  | remove data =>
      obtain ⟨hashTable', hremove, hmaps⟩ := h.remove data
      refine ⟨hashTable', ?_, hmaps⟩
      simp only [Hash.exec, hremove, bind, Option.bind_some, pure, answer]
  | find data =>
      refine ⟨hashTable, ?_, h⟩
      simp only [Hash.exec, h.find data, bind, Option.bind_some, pure, answer]
  | size =>
      refine ⟨hashTable, ?_, h⟩
      simp only [Hash.exec, h.size, bind, Option.bind_some, pure, answer]
  | isEmpty =>
      refine ⟨hashTable, ?_, h⟩
      simp only [Hash.exec, hashIsEmpty, h.size, bind, Option.bind_some, pure, answer, eq_comm]

theorem maps_create (H : Hashing α) : Maps H (hashCreate H.hashFunc H.matchFunc H.capacity) fun _ => none := by
  refine ⟨fun _ => [], ⟨⟨rfl, rfl, rfl⟩, List.length_replicate, fun i list hlist => ?_, fun i e he => ?_, fun i => ?_⟩,
    fun data => rfl⟩
  · have hmem := List.mem_of_getElem? hlist
    rw [(List.mem_replicate.mp hmem).2]
    exact holds_create
  · exact absurd he List.not_mem_nil
  · exact List.nodup_nil

/-- **The table is a map** from classes to the data that were inserted last: after any calls,

    * each call has the answer of the map;
    * each element is in the list at its hash, and no two elements are of one class;
    * what is found is what is in the table. -/
theorem hash_is_a_map {s : HashTable α × Latest H}
    (h : (sideBySide (hashComponent H) (mapModel H) Allowed).Reachable System.Any s) :
    (∀ call, Allowed s.1 s.2 call → ∃ hashTable', exec s.1 call = some (hashTable', (answer s.2 call).2)) ∧
    ∃ elements : Nat → List (Nat × α),
      (∀ i list, s.1.hashArr[i]? = some list → Holds list (elements i)) ∧
      (∀ i, ∀ e ∈ elements i, H.hashFunc e.2 = i ∧ s.2 (H.classOf e.2) = some e.2) ∧
      ∀ i j, ∀ a ∈ elements i, ∀ b ∈ elements j, H.matchFunc a.2 b.2 ≠ 0 → i = j ∧ a = b := by
  have hmaps : Maps H s.1 s.2 := by
    refine keeps_of_simulation (C := hashComponent H) (M := mapModel H) (R := Maps H) ?_
      (fun hashTable latest call h hallowed => h.exec hallowed) h
    rintro hashTable rfl
    exact maps_create H
  refine ⟨fun call hallowed => ?_, ?_⟩
  · obtain ⟨hashTable', hexec, -⟩ := hmaps.exec hallowed
    exact ⟨hashTable', hexec⟩
  · obtain ⟨elements, helements, hlatest⟩ := hmaps
    refine ⟨elements, helements.holds, fun i e he => ⟨helements.hash i e he, ?_⟩, fun i j a ha b hb hmatch => ?_⟩
    · have hunique := helements.unique i
      have hi : H.hashFunc e.2 = i := helements.hash i e he
      obtain ⟨before, rest, hsplit⟩ := List.append_of_mem he
      rw [hsplit] at hunique
      rw [hlatest, hi, hsplit]
      exact lookup_middle (fun u hu => unique_middle hunique u (List.mem_append_left _ hu)) rfl
    · have hclass := H.classOf_eq.mpr hmatch
      have hij : i = j := by rw [← helements.hash i a ha, ← helements.hash j b hb, H.hash_eq hclass]
      subst hij
      exact ⟨rfl, List.inj_on_of_nodup_map (helements.unique i) ha hb hclass⟩

/-- Numbers that have the same remainder match, and are found again. -/
def sampleHashing : Hashing Nat where
  hashFunc x := x % 2
  matchFunc x y := if x % 4 = y % 4 then 1 else 0
  capacity := 2
  positive := by decide
  bounded x := Nat.mod_lt x (by decide)
  equivalence := by
    refine ⟨fun x => ?_, fun {x y} h => ?_, fun {x y z} hxy hyz => ?_⟩
    · simp
    · simp only [ne_eq, ite_eq_right_iff, one_ne_zero, imp_false, not_not] at h ⊢
      exact h.symm
    · simp only [ne_eq, ite_eq_right_iff, one_ne_zero, imp_false, not_not] at hxy hyz ⊢
      exact hxy.trans hyz
  compatible x y h := by
    simp only [ne_eq, ite_eq_right_iff, one_ne_zero, imp_false, not_not] at h
    omega

/-- 3 is inserted, and then 7, which matches it: 7 is found. -/
theorem hash_sample : ∃ hashTable : HashTable Nat,
    (∃ hashTable', exec hashTable (.find 3) = some (hashTable', .data (some 7))) ∧
    ∃ elements : Nat → List (Nat × Nat),
      ∀ i list, hashTable.hashArr[i]? = some list → Holds list (elements i) := by
  have h₀ : (sideBySide (hashComponent sampleHashing) (mapModel sampleHashing) Allowed).Reachable System.Any
      (hashCreate sampleHashing.hashFunc sampleHashing.matchFunc 2, fun _ => none) := .init ⟨rfl, rfl⟩
  have hallowed : Allowed (H := sampleHashing) (hashCreate sampleHashing.hashFunc sampleHashing.matchFunc 2)
      (fun _ => none) (.insert 3 (some 1)) := by
    intro address _ list hlist
    rw [(List.mem_replicate.mp hlist).2]
    rfl
  obtain ⟨hashTable₁, hexec₁⟩ := (hash_is_a_map h₀).1 (.insert 3 (some 1)) hallowed
  have h₁ : (sideBySide (hashComponent sampleHashing) (mapModel sampleHashing) Allowed).Reachable System.Any
      (hashTable₁, (answer (fun _ => none) (.insert 3 (some 1))).1) :=
    h₀.step (a := Call.insert 3 (some 1)) trivial ⟨hallowed, ⟨_, hexec₁⟩, rfl⟩
  -- an element is overwritten without an allocation
  have hallowed' : Allowed hashTable₁ (answer (H := sampleHashing) (fun _ => none) (.insert 3 (some 1))).1
      (.insert 7 none) := by
    intro address haddress
    cases haddress
  obtain ⟨hashTable₂, hexec₂⟩ := (hash_is_a_map h₁).1 (.insert 7 none) hallowed'
  have h₂ : (sideBySide (hashComponent sampleHashing) (mapModel sampleHashing) Allowed).Reachable System.Any
      (hashTable₂, (answer (answer (fun _ => none) (.insert 3 (some 1))).1 (.insert 7 none)).1) :=
    h₁.step (a := Call.insert 7 none) trivial ⟨hallowed', ⟨_, hexec₂⟩, rfl⟩
  obtain ⟨hanswers, elements, hholds, -⟩ := hash_is_a_map h₂
  refine ⟨hashTable₂, ?_, elements, hholds⟩
  obtain ⟨hashTable₃, hfind⟩ := hanswers (.find 3) trivial
  have hclass : sampleHashing.classOf 7 = sampleHashing.classOf 3 := sampleHashing.classOf_eq.mpr (by decide)
  refine ⟨hashTable₃, hfind.trans ?_⟩
  simp only [answer, Option.isSome_some, or_true, if_true, hclass, Function.update_self, true_or]

end Workbench.Hash
