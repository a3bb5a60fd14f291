import Mathlib.Data.List.Chain
import Mathlib.Data.List.Nodup

/-!
# `Lib.PathCover` — paths that visit each of some elements once

A search for such a path takes one step, and goes on with the elements that are left.

## Main results
* `covers_singleton` — nothing is left but the start;
* `covers_iff` — a path is the start and a path of the rest.
-/

namespace Workbench

variable {α : Type} {adj : α → α → Prop} {free : α → Prop} {a : α} {path : List α}

/-- **The path starts with `a` and visits exactly the free elements, each once.** -/
structure Covers (adj : α → α → Prop) (free : α → Prop) (a : α) (path : List α) : Prop where
  start : path.head? = some a
  chain : path.IsChain adj
  once : path.Nodup
  covers (b : α) : b ∈ path ↔ free b

theorem Covers.free_start (h : Covers adj free a path) : free a := (h.covers a).mp (List.mem_of_head? h.start)

/-- **Nothing is left but the start.** -/
theorem covers_singleton (h : ∀ b, free b ↔ b = a) : Covers adj free a [a] where
  start := rfl
  chain := List.isChain_singleton a
  once := List.nodup_singleton a
  covers b := List.mem_singleton.trans (h b).symm

/-- **A step, and a path of the rest.** -/
theorem Covers.cons {b : α} (hfree : free a) (hadj : adj a b) (h : Covers adj (fun c => free c ∧ c ≠ a) b path) :
    Covers adj free a (a :: path) where
  start := rfl
  chain := List.isChain_cons.mpr ⟨fun c hc => by
    obtain rfl := Option.some.inj (h.start.symm.trans hc)
    exact hadj, h.chain⟩
  once := List.nodup_cons.mpr ⟨fun hmem => ((h.covers a).mp hmem).2 rfl, h.once⟩
  covers c := by
    rw [List.mem_cons, h.covers c]
    constructor
    · rintro (rfl | hc)
      · exact hfree
      · exact hc.1
    · intro hc
      by_cases heq : c = a
      · exact .inl heq
      · exact .inr ⟨hc, heq⟩

/-- A path to more than the start has a first step. -/
theorem Covers.first_step (h : Covers adj free a path) (hmore : ∃ b, free b ∧ b ≠ a) :
    ∃ b rest, adj a b ∧ Covers adj (fun c => free c ∧ c ≠ a) b rest := by
  obtain ⟨rest, rfl⟩ : ∃ rest, path = a :: rest := List.head?_eq_some_iff.mp h.start
  obtain ⟨hnot, honce⟩ := List.nodup_cons.mp h.once
  have hrest : ∀ c, c ∈ rest ↔ free c ∧ c ≠ a := by
    intro c
    rw [← h.covers c, List.mem_cons]
    constructor
    · intro hc
      exact ⟨.inr hc, fun heq => hnot (heq ▸ hc)⟩
    · rintro ⟨heq | hc, hne⟩
      · exact absurd heq hne
      · exact hc
  obtain ⟨c, hc⟩ := hmore
  obtain ⟨b, rest', rfl⟩ := List.exists_cons_of_ne_nil (List.ne_nil_of_mem ((hrest c).mpr hc))
  obtain ⟨hadj, hchain⟩ := List.isChain_cons.mp h.chain
  exact ⟨b, b :: rest', hadj b rfl, rfl, hchain, honce, hrest⟩

/-- **There is a path if and only if** there is one of the rest from a neighbour. -/
theorem exists_covers_iff (hfree : free a) (hmore : ∃ b, free b ∧ b ≠ a) :
    (∃ path, Covers adj free a path) ↔ ∃ b, adj a b ∧ ∃ rest, Covers adj (fun c => free c ∧ c ≠ a) b rest := by
  constructor
  · rintro ⟨path, h⟩
    obtain ⟨b, rest, hadj, hrest⟩ := h.first_step hmore
    exact ⟨b, hadj, rest, hrest⟩
  · rintro ⟨b, hadj, rest, hrest⟩
    exact ⟨a :: rest, hrest.cons hfree hadj⟩

end Workbench
