import Mathlib.Data.List.Basic

/-!
# `Lib.Dict` — insertion-ordered dictionaries

A dictionary is the list of its entries in insertion order. `put` overwrites an existing key *in place*
and appends a new one, so the iteration order of a dictionary is the order in which its keys first
appeared.

## Contents
- **Reads.** `get?`, `hasKey`, `keys`.
- **Writes.** `put` and `erase`, with the read-over-write laws (`get?_put_self`, `get?_put_ne`) and the two laws that
  bring a chain of writes into a normal form: `put_put` (the last write to a key wins) and `put_comm`
  (writes to different keys commute once the later key is present).
- **Chains.** `update`, and `put_update`: overwriting a field of a chain is the chain with the field changed.
- **Passes.** `foldlM_pass`, `foldlM_entries`: what a loop over keys makes of the dictionary, from what a turn does.
-/

namespace Workbench

/-- A dictionary: its entries in insertion order. -/
abbrev Dict (κ α : Type) := List (κ × α)

namespace Dict

variable {κ α : Type} [DecidableEq κ]

/-- `d.get(k)`, with `none` for an absent key. -/
def get? : Dict κ α → κ → Option α
  | [], _ => none
  | (k', v) :: d, k => if k' = k then some v else get? d k

/-- `k in d`. -/
def hasKey (d : Dict κ α) (k : κ) : Bool := (get? d k).isSome

/-- `d[k] = v`: overwrite in place, or append. -/
def put : Dict κ α → κ → α → Dict κ α
  | [], k, v => [(k, v)]
  | (k', w) :: d, k, v => if k' = k then (k, v) :: d else (k', w) :: put d k v

/-- `del d[k]`. -/
def erase (d : Dict κ α) (k : κ) : Dict κ α := d.filter (fun e => decide (e.1 ≠ k))

/-- The keys, in insertion order. -/
def keys (d : Dict κ α) : List κ := d.map Prod.fst

/-! ## Reads after writes -/

@[simp] theorem get?_nil (k : κ) : get? ([] : Dict κ α) k = none := rfl

@[simp] theorem get?_cons (k' k : κ) (v : α) (d : Dict κ α) :
    get? ((k', v) :: d) k = if k' = k then some v else get? d k := rfl

@[simp] theorem get?_put_self (d : Dict κ α) (k : κ) (v : α) : get? (put d k v) k = some v := by
  induction d with
  | nil => simp [put]
  | cons e d ih =>
      obtain ⟨k', w⟩ := e
      by_cases h : k' = k
      · simp [put, h]
      · simp [put, h, ih]

@[simp] theorem get?_put_ne {k k' : κ} (h : k ≠ k') (d : Dict κ α) (v : α) :
    get? (put d k v) k' = get? d k' := by
  induction d with
  | nil => simp [put, h]
  | cons e d ih =>
      obtain ⟨k₀, w⟩ := e
      by_cases h₀ : k₀ = k
      · subst h₀
        simp [put, h]
      · simp [put, h₀, ih]

/-- Reading what is left by a filter on the keys. -/
theorem get?_filter (p : κ → Bool) (d : Dict κ α) (k : κ) :
    get? (d.filter fun e => p e.1) k = if p k then get? d k else none := by
  induction d with
  | nil => simp
  | cons e d ih =>
      obtain ⟨k', v⟩ := e
      by_cases hp : p k'
      · rw [List.filter_cons, if_pos hp, get?_cons, get?_cons, ih]
        by_cases hk : k' = k
        · subst hk
          rw [if_pos rfl, if_pos rfl, if_pos hp]
        · rw [if_neg hk, if_neg hk]
      · rw [List.filter_cons, if_neg hp, ih, get?_cons]
        by_cases hk : k' = k
        · subst hk
          rw [if_neg hp, if_neg hp]
        · rw [if_neg hk]

@[simp] theorem get?_erase_self (d : Dict κ α) (k : κ) : get? (erase d k) k = none := by
  rw [erase, get?_filter fun k' => decide (k' ≠ k), if_neg (by simp)]

@[simp] theorem get?_erase_ne {k k' : κ} (h : k ≠ k') (d : Dict κ α) :
    get? (erase d k) k' = get? d k' := by
  rw [erase, get?_filter fun k'' => decide (k'' ≠ k), if_pos (decide_eq_true (Ne.symm h))]

theorem mem_of_get?_eq_some {d : Dict κ α} {k : κ} {v : α} (h : get? d k = some v) : (k, v) ∈ d := by
  induction d with
  | nil => simp at h
  | cons e d ih =>
      obtain ⟨k', w⟩ := e
      by_cases hk : k' = k
      · subst hk
        simp only [get?_cons, if_true, Option.some.injEq] at h
        exact List.mem_cons.mpr (Or.inl (by rw [h]))
      · rw [get?_cons, if_neg hk] at h
        exact List.mem_cons_of_mem _ (ih h)

/-- In a dictionary no key of which is repeated, an entry is what its key reads as. -/
theorem get?_eq_some_of_mem {d : Dict κ α} (hn : (keys d).Nodup) {k : κ} {v : α}
    (h : (k, v) ∈ d) : get? d k = some v := by
  induction d with
  | nil => cases h
  | cons e d ih =>
      obtain ⟨k', w⟩ := e
      simp only [keys, List.map_cons, List.nodup_cons] at hn
      rcases List.mem_cons.mp h with heq | hmem
      · obtain ⟨rfl, rfl⟩ := Prod.mk.inj heq
        simp
      · have hk : k' ≠ k := by
          rintro rfl
          exact hn.1 (List.mem_map.mpr ⟨_, hmem, rfl⟩)
        rw [get?_cons, if_neg hk]
        exact ih hn.2 hmem

/-- With distinct keys, the entries are what is found. -/
theorem exists_mem_iff {d : Dict κ α} (hn : (keys d).Nodup) {P : α → Prop} :
    (∃ e ∈ d, P e.2) ↔ ∃ k v, get? d k = some v ∧ P v := by
  constructor
  · rintro ⟨e, he, hP⟩
    exact ⟨e.1, e.2, get?_eq_some_of_mem hn he, hP⟩
  · rintro ⟨k, v, hv, hP⟩
    exact ⟨(k, v), mem_of_get?_eq_some hv, hP⟩

theorem get?_eq_none_iff {d : Dict κ α} {k : κ} : get? d k = none ↔ k ∉ keys d := by
  induction d with
  | nil => simp [keys]
  | cons e d ih =>
      obtain ⟨k', v⟩ := e
      by_cases hk : k' = k
      · simp [keys, hk]
      · simpa [keys, hk, Ne.symm hk] using ih

theorem hasKey_iff_mem_keys {d : Dict κ α} {k : κ} : hasKey d k = true ↔ k ∈ keys d := by
  induction d with
  | nil => simp [hasKey, keys]
  | cons e d ih =>
      obtain ⟨k', v⟩ := e
      by_cases h : k' = k
      · simp [hasKey, keys, h]
      · simpa [hasKey, keys, h, Ne.symm h] using ih

theorem hasKey_put_self (d : Dict κ α) (k : κ) (v : α) : hasKey (put d k v) k = true := by
  simp [hasKey]

theorem hasKey_put_of_hasKey {d : Dict κ α} {k k' : κ} {v : α} (h : hasKey d k' = true) :
    hasKey (put d k v) k' = true := by
  by_cases hk : k = k'
  · subst hk
    exact hasKey_put_self d k v
  · simpa [hasKey, get?_put_ne hk] using h

/-! ## Normal forms for chains of writes -/

/-- The last write to a key wins. -/
@[simp] theorem put_put (d : Dict κ α) (k : κ) (v w : α) : put (put d k v) k w = put d k w := by
  induction d with
  | nil => simp [put]
  | cons e d ih =>
      obtain ⟨k', u⟩ := e
      by_cases h : k' = k
      · simp [put, h]
      · simp [put, h, ih]

/-- Writes to different keys commute when the later key is already present (so that both are made in
    place, or only the other one is appended). -/
theorem put_comm {k k' : κ} (h : k ≠ k') {d : Dict κ α} (hd : hasKey d k' = true) (v w : α) :
    put (put d k v) k' w = put (put d k' w) k v := by
  induction d with
  | nil => simp [hasKey] at hd
  | cons e d ih =>
      obtain ⟨k₀, u⟩ := e
      by_cases h₁ : k₀ = k
      · subst h₁
        simp [put, h]
      · by_cases h₂ : k₀ = k'
        · subst h₂
          simp [put, h₁]
        · have hd' : hasKey d k' = true := by simpa [hasKey, h₂] using hd
          simp [put, h₁, h₂, ih hd']

/-! ## `update`: a whole chain of writes -/

/-- `d.update(fields)`: the writes of `fields`, in order. -/
def update (d fields : Dict κ α) : Dict κ α := fields.foldl (fun d e => put d e.1 e.2) d

@[simp] theorem update_nil (d : Dict κ α) : update d [] = d := rfl

@[simp] theorem update_cons (d : Dict κ α) (k : κ) (v : α) (fields : Dict κ α) :
    update d ((k, v) :: fields) = update (put d k v) fields := rfl

theorem get?_update_of_not_mem {k : κ} {fields : Dict κ α} (h : k ∉ keys fields) (d : Dict κ α) :
    get? (update d fields) k = get? d k := by
  induction fields generalizing d with
  | nil => rfl
  | cons e fields ih =>
      obtain ⟨k', v⟩ := e
      simp only [keys, List.map_cons, List.mem_cons, not_or] at h
      rw [update_cons, ih h.2, get?_put_ne (Ne.symm h.1)]

/-- Reading a key the chain writes (once) gives the value it writes. -/
theorem get?_update {k : κ} {v : α} {fields : Dict κ α} (hn : (keys fields).Nodup)
    (h : get? fields k = some v) (d : Dict κ α) : get? (update d fields) k = some v := by
  induction fields generalizing d with
  | nil => simp at h
  | cons e fields ih =>
      obtain ⟨k', w⟩ := e
      simp only [keys, List.map_cons, List.nodup_cons] at hn
      rw [update_cons]
      by_cases hk : k' = k
      · subst hk
        simp only [get?_cons, if_true, Option.some.injEq] at h
        subst h
        rw [get?_update_of_not_mem hn.1, get?_put_self]
      · exact ih hn.2 (by simpa [hk] using h) _

theorem put_update_of_not_mem {k : κ} {fields : Dict κ α} (h : k ∉ keys fields) {d : Dict κ α}
    (hd : hasKey d k = true) (v : α) : put (update d fields) k v = update (put d k v) fields := by
  induction fields generalizing d with
  | nil => rfl
  | cons e fields ih =>
      obtain ⟨k', w⟩ := e
      simp only [keys, List.map_cons, List.mem_cons, not_or] at h
      rw [update_cons, ih h.2 (hasKey_put_of_hasKey hd), put_comm (Ne.symm h.1) hd, update_cons]

/-- **Overwriting a field of the chain.** A write after the chain, to a key of the chain, is the chain with
    that field changed. -/
theorem put_update {k : κ} {fields : Dict κ α} (hn : (keys fields).Nodup)
    (h : hasKey fields k = true) (d : Dict κ α) (v : α) :
    put (update d fields) k v = update d (put fields k v) := by
  induction fields generalizing d with
  | nil => simp [hasKey] at h
  | cons e fields ih =>
      obtain ⟨k', w⟩ := e
      simp only [keys, List.map_cons, List.nodup_cons] at hn
      by_cases hk : k' = k
      · subst hk
        rw [update_cons, put_update_of_not_mem hn.1 (hasKey_put_self d k' w), put_put]
        simp [put]
      · rw [update_cons, ih hn.2 (by simpa [hasKey, hk] using h)]
        simp [put, hk]

theorem keys_put_of_mem {d : Dict κ α} {k : κ} (h : k ∈ keys d) (v : α) : keys (put d k v) = keys d := by
  induction d with
  | nil => cases h
  | cons e d ih =>
      obtain ⟨k', w⟩ := e
      by_cases hk : k' = k
      · simp [put, keys, hk]
      · have hmem : k ∈ keys d := by
          rcases List.mem_cons.mp h with heq | hmem
          · exact absurd heq.symm hk
          · exact hmem
        simpa [put, keys, hk] using ih hmem

theorem put_of_not_mem {d : Dict κ α} {k : κ} (h : k ∉ keys d) (v : α) : put d k v = d ++ [(k, v)] := by
  induction d with
  | nil => rfl
  | cons e d ih =>
      obtain ⟨k', w⟩ := e
      simp only [keys, List.map_cons, List.mem_cons, not_or] at h
      simp [put, Ne.symm h.1, ih h.2]

theorem put_ne_nil (d : Dict κ α) (k : κ) (v : α) : put d k v ≠ [] := by
  intro h
  have hget := get?_put_self d k v
  rw [h] at hget
  cases hget

theorem nodup_keys_put {d : Dict κ α} (h : (keys d).Nodup) (k : κ) (v : α) : (keys (put d k v)).Nodup := by
  by_cases hk : k ∈ keys d
  · rwa [keys_put_of_mem hk]
  · have hkeys : keys (put d k v) = keys d ++ [k] := by
      rw [put_of_not_mem hk]
      simp [keys]
    rw [hkeys, List.nodup_append]
    refine ⟨h, by simp, ?_⟩
    rintro k' hk' _ hk'' rfl
    exact hk (List.mem_singleton.mp hk'' ▸ hk')

/-! ## Mapping the values -/

/-- Writing back the value a key already has changes nothing. -/
theorem put_get?_self {d : Dict κ α} {k : κ} {v : α} (h : get? d k = some v) : put d k v = d := by
  induction d with
  | nil => simp at h
  | cons e d ih =>
      obtain ⟨k', u⟩ := e
      by_cases hk : k' = k
      · subst hk
        simp only [get?_cons, if_true, Option.some.injEq] at h
        simp [put, h]
      · simp only [get?_cons, if_neg hk] at h
        simp [put, hk, ih h]

/-- Two dictionaries with the same keys in the same order, and the same values. -/
theorem ext_of_get? {d d' : Dict κ α} (hn : (keys d).Nodup) (hkeys : keys d = keys d')
    (hget : ∀ k ∈ keys d, get? d k = get? d' k) : d = d' := by
  induction d generalizing d' with
  | nil => exact (List.map_eq_nil_iff.mp hkeys.symm).symm
  | cons e d ih =>
      obtain ⟨k, v⟩ := e
      obtain ⟨⟨k', v'⟩, rest, rfl, hk, hrest⟩ := List.map_eq_cons_iff.mp hkeys.symm
      obtain rfl : k' = k := hk
      obtain ⟨hnew, hn⟩ := List.nodup_cons.mp hn
      have hv := hget k' List.mem_cons_self
      simp only [get?_cons, if_true, Option.some.injEq] at hv
      rw [hv, ih hn hrest.symm]
      intro j hj
      have hne : k' ≠ j := fun heq => hnew (heq ▸ hj)
      have hj' := hget j (List.mem_cons_of_mem _ hj)
      rwa [get?_cons, get?_cons, if_neg hne, if_neg hne] at hj'

/-! ## Passes over keys -/

/-- **A pass** that may fail sets each of its keys, if a turn sets its own key and leaves the others. It may
    count on the key being as it was at the start of the pass, or set already. -/
theorem foldlM_pass (target : κ → Option α) {f : Dict κ α → κ → Option (Dict κ α)} {ks : List κ} {d : Dict κ α}
    (hf : ∀ k ∈ ks, ∀ d', get? d' k = get? d k ∨ get? d' k = target k → ∃ d'', f d' k = some d'' ∧
      get? d'' k = target k ∧ ∀ k', k ≠ k' → get? d'' k' = get? d' k') :
    ∃ d', ks.foldlM f d = some d' ∧ ∀ k, get? d' k = if k ∈ ks then target k else get? d k := by
  induction ks generalizing d with
  | nil => exact ⟨d, rfl, fun k => by rw [if_neg List.not_mem_nil]⟩
  | cons k ks ih =>
      obtain ⟨d₁, hturn, hset, hframe⟩ := hf k List.mem_cons_self d (Or.inl rfl)
      have hrest : ∀ k' ∈ ks, ∀ d', get? d' k' = get? d₁ k' ∨ get? d' k' = target k' → ∃ d'', f d' k' = some d'' ∧
          get? d'' k' = target k' ∧ ∀ k'', k' ≠ k'' → get? d'' k'' = get? d' k'' := by
        intro k' hk' d' hd'
        refine hf k' (List.mem_cons_of_mem _ hk') d' ?_
        by_cases hk : k = k'
        · subst hk
          exact Or.inr (hd'.elim (fun h => h.trans hset) id)
        · exact hd'.imp_left fun h => h.trans (hframe k' hk)
      obtain ⟨d', hrun, hget⟩ := ih hrest
      refine ⟨d', by rw [List.foldlM_cons, hturn]; exact hrun, fun k' => ?_⟩
      rw [hget k']
      by_cases hmem : k' ∈ ks
      · rw [if_pos hmem, if_pos (List.mem_cons_of_mem _ hmem)]
      · by_cases hk : k = k'
        · subst hk
          rw [if_neg hmem, if_pos List.mem_cons_self, hset]
        · rw [if_neg hmem, hframe k' hk, if_neg (by simp [hmem, Ne.symm hk])]

theorem get?_append_cons {pre post : Dict κ α} {k : κ} (hpre : k ∉ keys pre) (v : α) :
    get? (pre ++ (k, v) :: post) k = some v := by
  induction pre with
  | nil => rw [List.nil_append, get?_cons, if_pos rfl]
  | cons e pre ih =>
      obtain ⟨hne, hpre⟩ := not_or.mp (mt List.mem_cons.mpr hpre)
      rw [List.cons_append, get?_cons, if_neg (Ne.symm hne), ih hpre]

theorem put_append_cons {pre post : Dict κ α} {k : κ} (hpre : k ∉ keys pre) (v w : α) :
    put (pre ++ (k, v) :: post) k w = pre ++ (k, w) :: post := by
  induction pre with
  | nil => rw [List.nil_append, put, if_pos rfl, List.nil_append]
  | cons e pre ih =>
      obtain ⟨hne, hpre⟩ := not_or.mp (mt List.mem_cons.mpr hpre)
      rw [List.cons_append, put, if_neg (Ne.symm hne), ih hpre, List.cons_append]

theorem erase_append_cons {pre post : Dict κ α} {k : κ} (hpre : k ∉ keys pre) (hpost : k ∉ keys post) (v : α) :
    erase (pre ++ (k, v) :: post) k = pre ++ post := by
  have hkeep : ∀ d : Dict κ α, k ∉ keys d → d.filter (fun e => decide (e.1 ≠ k)) = d := fun d hd =>
    List.filter_eq_self.mpr fun e he => decide_eq_true fun heq => hd (heq ▸ List.mem_map_of_mem he)
  rw [erase, List.filter_append, List.filter_cons_of_neg (by simp), hkeep pre hpre, hkeep post hpost]

omit [DecidableEq κ] in
/-- **A pass over all keys**, where a turn changes or deletes the entry of its key. -/
theorem foldlM_entries (step : κ × α → Option α) {f : Dict κ α → κ → Option (Dict κ α)} {d : Dict κ α}
    (hf : ∀ e ∈ d, ∀ pre post, e.1 ∉ keys pre → e.1 ∉ keys post →
      f (pre ++ e :: post) e.1 = some (pre ++ ((step e).map fun v => (e.1, v)).toList ++ post))
    (hn : (keys d).Nodup) :
    (keys d).foldlM f d = some (d.filterMap fun e => (step e).map fun v => (e.1, v)) := by
  suffices h : ∀ pre : Dict κ α, (∀ k ∈ keys pre, k ∉ keys d) → (keys d).foldlM f (pre ++ d) =
      some (pre ++ d.filterMap fun e => (step e).map fun v => (e.1, v)) from h [] fun k hk => absurd hk List.not_mem_nil
  induction d with
  | nil => exact fun pre _ => rfl
  | cons e d ih =>
      intro pre hpre
      obtain ⟨hnew, hn⟩ := List.nodup_cons.mp hn
      have hturn := hf e List.mem_cons_self pre d (fun hmem => hpre _ hmem List.mem_cons_self) hnew
      have hrest := ih (fun e' he' => hf e' (List.mem_cons_of_mem e he')) hn
        (pre ++ ((step e).map fun v => (e.1, v)).toList) ?_
      · show (f (pre ++ e :: d) e.1).bind ((keys d).foldlM f) = _
        rw [hturn, Option.bind_some, hrest, List.filterMap_cons]
        cases step e with
        | none => rw [Option.map_none, Option.toList_none, List.append_nil]
        | some v => rw [Option.map_some, Option.toList_some, List.append_assoc, List.singleton_append]
      · intro k hk hmem
        rw [keys, List.map_append, List.mem_append] at hk
        rcases hk with hk | hk
        · exact hpre k hk (List.mem_cons_of_mem _ hmem)
        · cases hstep : step e with
          | none =>
              rw [hstep] at hk
              exact absurd hk List.not_mem_nil
          | some v =>
              rw [hstep] at hk
              obtain rfl := List.mem_singleton.mp hk
              exact hnew hmem

omit [DecidableEq κ] in
/-- In a pass that does not fail, each key has had its turn. -/
theorem turn_of_foldlM {f : Dict κ α → κ → Option (Dict κ α)} {ks : List κ} {d d' : Dict κ α}
    (h : ks.foldlM f d = some d') : ∀ k ∈ ks, ∃ d₁ d₂, f d₁ k = some d₂ := by
  induction ks generalizing d with
  | nil => exact fun k hk => absurd hk List.not_mem_nil
  | cons k ks ih =>
      rw [List.foldlM_cons] at h
      obtain ⟨d₁, hturn, hrest⟩ := Option.bind_eq_some_iff.mp h
      intro k' hk'
      rcases List.mem_cons.mp hk' with rfl | hk'
      · exact ⟨d, d₁, hturn⟩
      · exact ih hrest k' hk'

end Dict
end Workbench
