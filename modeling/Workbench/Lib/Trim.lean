import Mathlib.Data.List.Destutter
import Mathlib.Data.List.DropRight
import Mathlib.Tactic.Common

/-!
# `Lib.Trim` — the white space of a text

Some elements are blank. Those at the ends are trimmed, and of each run of them inside only the first one is left, which
is Mathlib's `destutter` for the relation that not both are blank.

## Main results
* `exists_ends`, `trimmed_cases` — what is cut off, and what is left;
* `collapsed_run`, `collapsed_solid` — the text by its runs;
* `collapsed_ends` — the ends are kept.
-/

namespace Workbench

variable {α : Type} {blank : α → Bool} {a b c : α} {l mid run : List α}

/-! ## The ends -/

def trimmed (blank : α → Bool) (l : List α) : List α := (l.dropWhile blank).rdropWhile blank

/-- What is cut off is blank. -/
theorem exists_ends (blank : α → Bool) (l : List α) : ∃ lead trail, l = lead ++ (trimmed blank l ++ trail) ∧
    (∀ x ∈ lead, blank x = true) ∧ ∀ x ∈ trail, blank x = true := by
  refine ⟨l.takeWhile blank, (l.dropWhile blank).rtakeWhile blank, ?_, fun _ => List.mem_takeWhile_imp,
    fun _ => List.mem_rtakeWhile_imp⟩
  rw [trimmed, List.rdropWhile_append_rtakeWhile, List.takeWhile_append_dropWhile]

theorem trimmed_head (h : trimmed blank l = a :: mid) : blank a = false := by
  obtain ⟨rest, hrest⟩ : trimmed blank l <+: l.dropWhile blank := List.rdropWhile_prefix ..
  rw [h, List.cons_append] at hrest
  have hhead := List.head?_dropWhile_not blank l
  rw [← hrest] at hhead
  simpa using hhead

/-- **What is left** is empty, one element, or has solid ends. -/
theorem trimmed_cases (blank : α → Bool) (l : List α) :
    trimmed blank l = [] ∨ (∃ a, blank a = false ∧ trimmed blank l = [a]) ∨
      ∃ a mid b, blank a = false ∧ blank b = false ∧ trimmed blank l = a :: (mid ++ [b]) := by
  rcases hleft : trimmed blank l with _ | ⟨a, tail⟩
  · exact .inl rfl
  · have ha := trimmed_head hleft
    rcases List.eq_nil_or_concat' tail with rfl | ⟨mid, b, rfl⟩
    · exact .inr (.inl ⟨a, ha, rfl⟩)
    · refine .inr (.inr ⟨a, mid, b, ha, ?_, rfl⟩)
      have hne : trimmed blank l ≠ [] := by
        rw [hleft]
        exact List.cons_ne_nil _ _
      have hlast : ¬ blank ((trimmed blank l).getLast hne) = true := List.rdropWhile_last_not blank _ hne
      have hb : (trimmed blank l).getLast hne = b := by simp [hleft]
      rw [hb] at hlast
      exact Bool.eq_false_iff.mpr hlast

/-! ## The runs -/

/-- Blanks are apart. -/
def Apart (blank : α → Bool) (a b : α) : Prop := ¬ (blank a = true ∧ blank b = true)

instance : DecidableRel (Apart blank) := fun _ _ => inferInstanceAs (Decidable (¬ _))

def collapsed (blank : α → Bool) (l : List α) : List α := l.destutter (Apart blank)

theorem apart_of_solid_left (ha : blank a = false) (b : α) : Apart blank a b := fun h => by
  rw [ha] at h
  cases h.1

theorem apart_of_solid_right (hb : blank b = false) (a : α) : Apart blank a b := fun h => by
  rw [hb] at h
  cases h.2

theorem isChain_collapsed (blank : α → Bool) (l : List α) : (collapsed blank l).IsChain (Apart blank) :=
  List.isChain_destutter ..

theorem collapsed_of_isChain (h : l.IsChain (Apart blank)) : collapsed blank l = l := List.destutter_of_isChain _ _ h

/-- A solid element is left, and nothing changes behind it. -/
theorem collapsed_solid (ha : blank a = false) (l : List α) :
    collapsed blank (a :: l) = a :: collapsed blank l := by
  cases l with
  | nil => rfl
  | cons b l => exact List.destutter'_cons_pos _ (apart_of_solid_left ha b)

/-- Only the first blank of a run is left. -/
theorem collapsed_run (ha : blank a = true) (hrun : ∀ x ∈ run, blank x = true) (hb : blank b = false) (l : List α) :
    collapsed blank (a :: (run ++ b :: l)) = a :: b :: collapsed blank l := by
  induction run with
  | nil =>
      have hpos : (b :: l).destutter' (Apart blank) a = a :: l.destutter' (Apart blank) b :=
        List.destutter'_cons_pos _ (apart_of_solid_right hb a)
      exact hpos.trans (congrArg (a :: ·) (collapsed_solid hb l))
  | cons x run ih =>
      have hneg : (x :: (run ++ b :: l)).destutter' (Apart blank) a = (run ++ b :: l).destutter' (Apart blank) a :=
        List.destutter'_cons_neg _ fun h => h ⟨ha, hrun x List.mem_cons_self⟩
      exact hneg.trans (ih fun y hy => hrun y (List.mem_cons_of_mem x hy))

theorem destutter'_concat (hb : blank b = false) (l : List α) (a : α) :
    ∃ mid, (l ++ [b]).destutter' (Apart blank) a = a :: (mid ++ [b]) := by
  induction l generalizing a with
  | nil => exact ⟨[], List.destutter'_cons_pos _ (apart_of_solid_right hb a)⟩
  | cons c l ih =>
      by_cases hac : Apart blank a c
      · obtain ⟨mid, hmid⟩ := ih c
        exact ⟨c :: mid, (List.destutter'_cons_pos _ hac).trans (congrArg (a :: ·) hmid)⟩
      · obtain ⟨mid, hmid⟩ := ih a
        exact ⟨mid, (List.destutter'_cons_neg _ hac).trans hmid⟩

/-- **The ends** are kept. -/
theorem collapsed_ends (hb : blank b = false) (a : α) (mid : List α) :
    ∃ mid', collapsed blank (a :: (mid ++ [b])) = a :: (mid' ++ [b]) := destutter'_concat hb mid a

end Workbench
