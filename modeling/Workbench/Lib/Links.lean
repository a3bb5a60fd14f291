import Mathlib.Data.List.Chain
import Mathlib.Data.List.Nodup

/-!
# `Lib.Links` — lists that are linked both ways

The nodes of a doubly linked list in their order: each one leads to the next, and back. Linking a node in and unlinking
one change the links of their neighbours only.

## Main results
* `links_link` — a node between two neighbours;
* `links_unlink` — a node less.
-/

namespace Workbench

variable {π : Type} {next prev next' prev' : π → Option π} {l r : List π} {x y z : π}

/-- From `x` to `y`, and back. -/
def Link (next prev : π → Option π) (x y : π) : Prop := next x = some y ∧ prev y = some x

/-- Neighbours are linked. -/
abbrev Links (next prev : π → Option π) (l : List π) : Prop := l.IsChain (Link next prev)

/-- Backward, the two kinds of links trade places. -/
theorem Links.reverse (h : Links next prev l) : Links prev next l.reverse :=
  List.isChain_reverse.mpr (h.imp fun _ _ hlink => ⟨hlink.2, hlink.1⟩)

/-- The links are those from each node but the last, and back from each but the first. -/
theorem Links.transport (h : Links next prev l) (hnext : ∀ x ∈ l.dropLast, next' x = next x)
    (hprev : ∀ y ∈ l.tail, prev' y = prev y) : Links next' prev' l := by
  induction l with
  | nil => exact .nil
  | cons x l ih =>
      cases l with
      | nil => exact .singleton x
      | cons y l =>
          obtain ⟨hxy, hl⟩ := List.isChain_cons_cons.mp h
          refine List.isChain_cons_cons.mpr ⟨⟨?_, ?_⟩, ih hl ?_ ?_⟩
          · exact (hnext x List.mem_cons_self).trans hxy.1
          · exact (hprev y List.mem_cons_self).trans hxy.2
          · exact fun p hp => hnext p (List.mem_cons_of_mem x hp)
          · exact fun p hp => hprev p (List.mem_cons_of_mem y hp)

/-- Two parts of a list, the first of which ends at `x` and the second of which starts at `z`. -/
theorem links_parts (hl : Links next prev (l ++ [x])) (hr : Links next prev (z :: r))
    (hnodup : (l ++ x :: z :: r).Nodup)
    (hnext : ∀ p ∈ l ++ x :: z :: r, p ≠ x → next' p = next p)
    (hprev : ∀ p ∈ l ++ x :: z :: r, p ≠ z → prev' p = prev p) :
    Links next' prev' (l ++ [x]) ∧ Links next' prev' (z :: r) := by
  have heq : l ++ x :: z :: r = (l ++ [x]) ++ z :: r := by simp
  rw [heq] at hnodup hnext hprev
  obtain ⟨hnodupl, hnodupr, hdisjoint⟩ := List.nodup_append.mp hnodup
  constructor
  · refine Links.transport hl (fun p hp => ?_) (fun p hp => ?_)
    · -- `x` is the last of the first part
      rw [List.dropLast_concat] at hp
      refine hnext p (List.mem_append_left _ (List.mem_append_left _ hp)) ?_
      rintro rfl
      exact (List.nodup_append.mp hnodupl).2.2 p hp p List.mem_cons_self rfl
    · have hp' := List.mem_of_mem_tail hp
      refine hprev p (List.mem_append_left _ hp') ?_
      rintro rfl
      exact hdisjoint p hp' p List.mem_cons_self rfl
  · refine Links.transport hr (fun p hp => ?_) (fun p hp => ?_)
    · have hp' := (List.dropLast_sublist (z :: r)).subset hp
      refine hnext p (List.mem_append_right _ hp') ?_
      rintro rfl
      exact hdisjoint p (List.mem_append_right _ List.mem_cons_self) p hp' rfl
    · -- `z` is the first of the second
      refine hprev p (List.mem_append_right _ (List.mem_cons_of_mem z hp)) ?_
      rintro rfl
      exact (List.nodup_cons.mp hnodupr).1 hp

/-- A node more, after `x`. -/
theorem nodup_link : (l ++ x :: y :: r).Nodup ↔ y ∉ l ++ x :: r ∧ (l ++ x :: r).Nodup := by
  have heq : l ++ x :: y :: r = (l ++ [x]) ++ y :: r := by simp
  rw [heq, List.nodup_middle, List.nodup_cons]
  simp

/-- **A node is linked in.** -/
theorem links_link (h : Links next prev (l ++ x :: z :: r)) (hnodup : (l ++ x :: z :: r).Nodup)
    (hnext : ∀ p ∈ l ++ x :: z :: r, p ≠ x → next' p = next p)
    (hprev : ∀ p ∈ l ++ x :: z :: r, p ≠ z → prev' p = prev p)
    (hxy : Link next' prev' x y) (hyz : Link next' prev' y z) : Links next' prev' (l ++ x :: y :: z :: r) := by
  obtain ⟨hl, -, hr⟩ := List.isChain_append_cons_cons.mp h
  obtain ⟨hl', hr'⟩ := links_parts hl hr hnodup hnext hprev
  exact List.isChain_append_cons_cons.mpr ⟨hl', hxy, List.isChain_cons_cons.mpr ⟨hyz, hr'⟩⟩

/-- **A node is unlinked.** -/
theorem links_unlink (h : Links next prev (l ++ x :: y :: z :: r)) (hnodup : (l ++ x :: z :: r).Nodup)
    (hnext : ∀ p ∈ l ++ x :: z :: r, p ≠ x → next' p = next p)
    (hprev : ∀ p ∈ l ++ x :: z :: r, p ≠ z → prev' p = prev p)
    (hxz : Link next' prev' x z) : Links next' prev' (l ++ x :: z :: r) := by
  obtain ⟨hl, -, hr⟩ := List.isChain_append_cons_cons.mp h
  obtain ⟨hl', hr'⟩ := links_parts hl (List.isChain_cons_cons.mp hr).2 hnodup hnext hprev
  exact List.isChain_append_cons_cons.mpr ⟨hl', hxz, hr'⟩

end Workbench
