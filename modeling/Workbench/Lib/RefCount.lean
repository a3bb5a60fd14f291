import Mathlib.Data.Set.Card
import Mathlib.Tactic.Common

/-!
# `Lib.RefCount` — things that count their references

A reference refers to a thing, or to nothing. A thing that is alive has the number of its references.

## Main results
* `references_update` — how a number changes when one reference changes;
* `Counted` — each number is right, and what nothing refers to is dead;
* `Counted.retain`, `Counted.release`, `Counted.move` — a reference is made, dropped, or refers to another thing;
* `Counted.only`, `Counted.another` — a thing with the number 1 has one reference, and with another number another one.
-/

namespace Workbench

/-- How many references refer to `k`. -/
noncomputable def references {ι κ : Type} (refs : ι → Option κ) (k : κ) : Nat := {i | refs i = some k}.ncard

variable {ι κ : Type} [DecidableEq ι] [DecidableEq κ] {refs : ι → Option κ} {count count' : κ → Option Nat} {i j : ι}
  {k : κ} {n : Nat}

/-- **One reference changes**: what it referred to has one less, what it refers to has one more. -/
theorem references_update (hfinite : {i | refs i ≠ none}.Finite) (x : Option κ) :
    references (Function.update refs i x) k + (if refs i = some k then 1 else 0) =
      references refs k + if x = some k then 1 else 0 := by
  have hrefs : {j | refs j = some k}.Finite := hfinite.subset fun j hj => by
    show refs j ≠ none
    rw [show refs j = some k from hj]
    exact Option.some_ne_none k
  -- the others
  have hothers : {j | refs j = some k ∧ j ≠ i}.Finite := hrefs.subset fun j hj => hj.1
  have hsplit : ∀ refs' : ι → Option κ, (∀ j ≠ i, refs' j = refs j) →
      {j | refs' j = some k}.ncard = {j | refs j = some k ∧ j ≠ i}.ncard + if refs' i = some k then 1 else 0 := by
    intro refs' hsame
    by_cases hi : refs' i = some k
    · have hinsert : {j | refs' j = some k} = insert i {j | refs j = some k ∧ j ≠ i} := by
        ext j
        by_cases hj : j = i
        · simp [hj, hi]
        · simp [hj, hsame j hj]
      rw [hinsert, Set.ncard_insert_of_notMem (by simp) hothers, if_pos hi]
    · have heq : {j | refs' j = some k} = {j | refs j = some k ∧ j ≠ i} := by
        ext j
        by_cases hj : j = i
        · simp [hj, hi]
        · simp [hj, hsame j hj]
      rw [heq, if_neg hi, Nat.add_zero]
  unfold references
  rw [hsplit _ fun j hj => Function.update_of_ne hj _ _, hsplit refs fun _ _ => rfl, Function.update_self]
  omega

/-- **Each thing that is alive has the number of its references**, and it has one. -/
structure Counted (refs : ι → Option κ) (count : κ → Option Nat) : Prop where
  finite : {i | refs i ≠ none}.Finite
  right : ∀ k, (count k).getD 0 = references refs k
  positive : ∀ k, count k ≠ some 0

namespace Counted

omit [DecidableEq ι] [DecidableEq κ]

theorem empty : Counted (fun _ : ι => (none : Option κ)) fun _ => none where
  finite := by simp
  right k := by simp [references]
  positive k := by simp

variable (h : Counted refs count)
include h

theorem finite_references (k : κ) : {i | refs i = some k}.Finite :=
  h.finite.subset fun i hi => by
    show refs i ≠ none
    rw [show refs i = some k from hi]
    exact Option.some_ne_none k

theorem eq (hk : count k = some n) : n = references refs k := by
  rw [← h.right k, hk, Option.getD_some]

/-- What is referred to is alive. -/
theorem alive (hi : refs i = some k) : ∃ n, count k = some (n + 1) := by
  have hpositive : 0 < references refs k := (Set.ncard_pos (h.finite_references k)).mpr ⟨i, hi⟩
  rw [← h.right k] at hpositive
  cases hk : count k with
  | none =>
      rw [hk] at hpositive
      cases hpositive
  | some n => exact ⟨n - 1, by rw [hk, Option.getD_some] at hpositive; rw [Nat.sub_add_cancel hpositive]⟩

/-- **What is alive is referred to.** -/
theorem isSome_iff : (count k).isSome = true ↔ ∃ i, refs i = some k := by
  constructor
  · intro hsome
    obtain ⟨n, hk⟩ := Option.isSome_iff_exists.mp hsome
    have hne : n ≠ 0 := fun hzero => h.positive k (by rw [hk, hzero])
    have hpositive : 0 < references refs k := by
      rw [← h.eq hk]
      exact Nat.pos_of_ne_zero hne
    exact (Set.ncard_pos (h.finite_references k)).mp hpositive
  · rintro ⟨i, hi⟩
    obtain ⟨n, hk⟩ := h.alive hi
    rw [hk]
    rfl

/-- **The only reference.** -/
theorem only (hk : count k = some 1) (hi : refs i = some k) (hj : refs j = some k) : i = j := by
  have hone : {i | refs i = some k}.ncard = 1 := (h.eq hk).symm
  obtain ⟨a, ha⟩ := Set.ncard_eq_one.mp hone
  have hia : i ∈ ({a} : Set ι) := ha ▸ hi
  have hja : j ∈ ({a} : Set ι) := ha ▸ hj
  rw [Set.mem_singleton_iff.mp hia, Set.mem_singleton_iff.mp hja]

/-- Another reference, if there is more than one. -/
theorem another (hk : count k = some (n + 1)) (hn : n ≠ 0) (i : ι) : ∃ j, j ≠ i ∧ refs j = some k := by
  have hlt : 1 < {i | refs i = some k}.ncard := by
    rw [show {i | refs i = some k}.ncard = n + 1 from (h.eq hk).symm]
    omega
  obtain ⟨j, hj, hne⟩ := Set.exists_ne_of_one_lt_ncard hlt i
  exact ⟨j, hne, hj⟩

omit h

variable [DecidableEq ι] [DecidableEq κ] {l : κ} {m : Nat}

/-- One reference changes, and the numbers with it. -/
theorem update (h : Counted refs count) {x : Option κ}
    (hcount : ∀ k, (count' k).getD 0 + (if refs i = some k then 1 else 0) =
      (count k).getD 0 + if x = some k then 1 else 0)
    (hpositive : ∀ k, count' k ≠ some 0) : Counted (Function.update refs i x) count' where
  finite := by
    refine (h.finite.insert i).subset fun j hj => ?_
    by_cases hji : j = i
    · exact .inl hji
    · refine .inr ?_
      have hj' : Function.update refs i x j ≠ none := hj
      rwa [Function.update_of_ne hji] at hj'
  right k := by
    have hreferences := references_update (k := k) (i := i) h.finite x
    have hk := hcount k
    have hold := h.right k
    omega
  positive := hpositive

/-- **A reference is made.** -/
theorem retain (h : Counted refs count) (hi : refs i = none) (hk : (count k).getD 0 = n) :
    Counted (Function.update refs i (some k)) (Function.update count k (some (n + 1))) := by
  refine h.update (fun j => ?_) fun j => ?_
  · by_cases hj : j = k
    · subst hj
      rw [Function.update_self, Option.getD_some, hi, if_neg (by simp), if_pos rfl, hk]
    · rw [Function.update_of_ne hj, hi, if_neg (by simp), if_neg (by simpa using Ne.symm hj)]
  · by_cases hj : j = k
    · subst hj
      rw [Function.update_self]
      simp
    · rw [Function.update_of_ne hj]
      exact h.positive j

/-- **A reference is dropped**, and the thing dies with its last one. -/
theorem release (h : Counted refs count) (hi : refs i = some k) (hk : count k = some (n + 1)) :
    Counted (Function.update refs i none) (Function.update count k (if n = 0 then none else some n)) := by
  refine h.update (fun j => ?_) fun j => ?_
  · by_cases hj : j = k
    · subst hj
      rw [Function.update_self, if_pos hi, if_neg (Option.some_ne_none j).symm, hk, Option.getD_some]
      by_cases hn : n = 0
      · rw [if_pos hn, hn]
        rfl
      · rw [if_neg hn]
        rfl
    · have hjk : some k ≠ some j := fun heq => hj (Option.some.inj heq).symm
      rw [Function.update_of_ne hj, hi, if_neg hjk, if_neg (Option.some_ne_none j).symm]
  · by_cases hj : j = k
    · subst hj
      rw [Function.update_self]
      by_cases hn : n = 0
      · simp [hn]
      · simp [hn]
    · rw [Function.update_of_ne hj]
      exact h.positive j

/-- **A reference refers to another thing.** -/
theorem move (h : Counted refs count) (hi : refs i = some k) (hk : count k = some (n + 1)) (hne : l ≠ k)
    (hl : (count l).getD 0 = m) :
    Counted (Function.update refs i (some l))
      (Function.update (Function.update count l (some (m + 1))) k (if n = 0 then none else some n)) := by
  have hdropped := h.release hi hk
  have hl' : (Function.update count k (if n = 0 then none else some n) l).getD 0 = m := by
    rw [Function.update_of_ne hne, hl]
  have hmoved := hdropped.retain (Function.update_self i none refs) hl'
  rwa [Function.update_idem, Function.update_comm (Ne.symm hne)] at hmoved

end Counted

end Workbench
