import Mathlib.Data.List.Nodup
import Mathlib.Data.Set.Finite.Lemmas
import Mathlib.Order.Preorder.Finite

/-!
# `Lib.Follow` — following links

Each node has a link to another one, or to nothing. From a start on, the links lead to an end, or around in a loop. Of
two walkers, one twice as fast as the other, the fast one catches up with the slow one if there is a loop.

## Main results
* `walkers_meet` — the two walkers in a loop;
* `walkers_apart` — the two walkers where there is an end;
* `path_or_lasso` — there is an end, or the way up to a node, and around from it to itself.
-/

namespace Workbench

variable {π : Type} {next : π → Option π} {p q : Option π} {x y z : π} {xs ys : List π} {i j k m n : Nat}

/-- So many links on. -/
def follow (next : π → Option π) : Nat → Option π → Option π
  | 0, p => p
  | n + 1, p => follow next n (p.bind next)

@[simp] theorem follow_zero (p : Option π) : follow next 0 p = p := rfl

@[simp] theorem follow_none (n : Nat) : follow next n none = none := by
  induction n with
  | zero => rfl
  | succ n ih => exact ih

theorem follow_add (m n : Nat) (p : Option π) : follow next (m + n) p = follow next n (follow next m p) := by
  induction m generalizing p with
  | zero => rw [Nat.zero_add, follow_zero]
  | succ m ih => rw [Nat.succ_add, follow, follow, ih]

theorem follow_succ (n : Nat) (p : Option π) : follow next (n + 1) p = (follow next n p).bind next := by
  rw [follow_add]
  rfl

/-- There is no end. -/
def Loops (next : π → Option π) (p : Option π) : Prop := ∀ n, follow next n p ≠ none

theorem Loops.follow (h : Loops next p) (n : Nat) : Loops next (follow next n p) := by
  intro m
  rw [← follow_add]
  exact h _

/-- Behind the end there is nothing. -/
theorem follow_eq_none_of_le (h : follow next m p = none) (hle : m ≤ n) : follow next n p = none := by
  obtain ⟨k, rfl⟩ := Nat.exists_eq_add_of_le hle
  rw [follow_add, h, follow_none]

/-- **A node that comes back** comes back again and again. -/
theorem follow_add_mul (h : follow next (i + j) p = follow next i p) (hle : i ≤ n) (k : Nat) :
    follow next (n + k * j) p = follow next n p := by
  obtain ⟨m, rfl⟩ := Nat.exists_eq_add_of_le hle
  induction k with
  | zero => rw [Nat.zero_mul, Nat.add_zero]
  | succ k ih =>
      have hsplit : i + m + (k + 1) * j = i + j + (m + k * j) := by
        rw [Nat.add_mul]
        omega
      rw [hsplit, follow_add, h, ← follow_add, ← Nat.add_assoc]
      exact ih

/-- Behind a node that comes back there is no end. -/
theorem loops_of_follow_eq (h : follow next (i + j) p = follow next i p) (hj : 0 < j)
    (hi : follow next i p ≠ none) : Loops next p := by
  intro n hn
  -- around so often that the end is passed
  have haround := follow_add_mul h (Nat.le_refl i) n
  have hpassed : n ≤ i + n * j := Nat.le_trans (Nat.le_mul_of_pos_right n hj) (Nat.le_add_left _ _)
  rw [follow_eq_none_of_le hn hpassed] at haround
  exact hi haround.symm

/-- Before the end, no node comes back. -/
theorem follow_injective (hend : follow next m p = none) (hj : follow next j p ≠ none) (hij : i < j) :
    follow next i p ≠ follow next j p := by
  intro heq
  refine loops_of_follow_eq (i := i) (j := j - i) ?_ (Nat.sub_pos_of_lt hij) (heq ▸ hj) m hend
  rw [heq, Nat.add_sub_cancel' (Nat.le_of_lt hij)]

/-! ## Two walkers -/

/-- **The walkers meet**, in a loop or behind the end. The fast one is one link in front at the start. -/
theorem walkers_meet {nodes : Set (Option π)} (hfinite : nodes.Finite) (hnodes : ∀ n, follow next n p ∈ nodes) :
    ∃ n, follow next n p = follow next (2 * n + 1) p := by
  obtain ⟨i, j, hij, heq⟩ := hfinite.exists_lt_map_eq_of_forall_mem hnodes
  have hback : follow next (i + (j - i)) p = follow next i p := by
    rw [heq, Nat.add_sub_cancel' (Nat.le_of_lt hij)]
  -- a number of links that is far enough, and one less than a multiple of the way around
  have hpos : 0 < j - i := Nat.sub_pos_of_lt hij
  have hfar : i + 1 ≤ (i + 1) * (j - i) := Nat.le_mul_of_pos_right _ hpos
  refine ⟨(i + 1) * (j - i) - 1, ?_⟩
  have hsplit : 2 * ((i + 1) * (j - i) - 1) + 1 = ((i + 1) * (j - i) - 1) + (i + 1) * (j - i) := by omega
  rw [hsplit]
  exact (follow_add_mul hback (by omega) (i + 1)).symm

/-- **Before an end, the walkers are apart.** -/
theorem walkers_apart (hend : follow next m p = none) (hfast : follow next (2 * n + 1) p ≠ none) :
    follow next n p ≠ follow next (2 * n + 1) p := follow_injective hend hfast (by omega)

/-! ## Paths -/

/-- The nodes from one link up to another one. -/
def Path (next : π → Option π) : Option π → List π → Option π → Prop
  | p, [], q => p = q
  | p, x :: xs, q => p = some x ∧ Path next (next x) xs q

@[simp] theorem path_nil : Path next p [] q ↔ p = q := Iff.rfl

@[simp] theorem path_cons : Path next p (x :: xs) q ↔ p = some x ∧ Path next (next x) xs q := Iff.rfl

theorem path_append : Path next p (xs ++ ys) q ↔ ∃ r, Path next p xs r ∧ Path next r ys q := by
  induction xs generalizing p with
  | nil => simp
  | cons x xs ih => simp [ih, and_assoc]

/-- Only the links of its nodes matter. -/
theorem Path.congr {next' : π → Option π} (h : Path next p xs q) (heq : ∀ x ∈ xs, next' x = next x) :
    Path next' p xs q := by
  induction xs generalizing p with
  | nil => exact h
  | cons x xs ih =>
      obtain ⟨rfl, hrest⟩ := h
      refine ⟨rfl, ?_⟩
      rw [heq x List.mem_cons_self]
      exact ih hrest fun y hy => heq y (List.mem_cons_of_mem x hy)

theorem Path.follow_length (h : Path next p xs q) : follow next xs.length p = q := by
  induction xs generalizing p with
  | nil => exact h
  | cons x xs ih =>
      obtain ⟨rfl, hrest⟩ := h
      exact ih hrest

/-- Where a path starts. -/
theorem Path.start_eq {next' : π → Option π} (h : Path next p xs q) : ∀ {p'}, Path next' p' xs q → p' = p := by
  intro p' h'
  cases xs with
  | nil => exact (path_nil.mp h').trans (path_nil.mp h).symm
  | cons x xs => exact h'.1.trans h.1.symm

/-- From a node of a path on. -/
theorem Path.split (h : Path next p xs q) (hx : x ∈ xs) :
    ∃ before after, xs = before ++ x :: after ∧ Path next p before (some x) ∧ Path next (some x) (x :: after) q := by
  obtain ⟨before, after, rfl⟩ := List.append_of_mem hx
  obtain ⟨r, hbefore, hafter⟩ := path_append.mp h
  obtain rfl := hafter.1
  exact ⟨before, after, rfl, hbefore, hafter⟩

/-- The way up to a node, and around from it to itself. -/
structure Lasso (next : π → Option π) (p : Option π) (xs : List π) (x : π) (ys : List π) : Prop where
  up : Path next p xs (some x)
  around : Path next (some x) (x :: ys) (some x)
  nodup : (xs ++ x :: ys).Nodup

theorem Lasso.loops (h : Lasso next p xs x ys) : Loops next p := by
  refine loops_of_follow_eq (i := xs.length) (j := (x :: ys).length) ?_ (Nat.succ_pos _) ?_
  · rw [follow_add, h.up.follow_length, h.around.follow_length]
  · rw [h.up.follow_length]
    nofun

theorem Path.not_loops (h : Path next p xs none) : ¬ Loops next p := fun hloops => hloops _ h.follow_length

/-- A path that ends visits no node twice. -/
theorem Path.nodup (h : Path next p xs none) : xs.Nodup := by
  induction xs generalizing p with
  | nil => exact List.nodup_nil
  | cons x xs ih =>
      refine List.nodup_cons.mpr ⟨fun hx => ?_, ih h.2⟩
      -- what leads back to itself does not end
      obtain ⟨before, after, rfl, hbefore, hafter⟩ := h.2.split hx
      have hback : follow next (0 + (before.length + 1)) (some x) = follow next 0 (some x) := by
        rw [Nat.zero_add]
        exact hbefore.follow_length
      exact hafter.not_loops (loops_of_follow_eq hback (Nat.succ_pos _) nofun)

/-- The nodes on the way, so long as there are new ones. -/
theorem path_or_lasso_of_finite {nodes : Set π} (hfinite : nodes.Finite)
    (hclosed : ∀ x ∈ nodes, ∀ y, next x = some y → y ∈ nodes) (hp : ∀ x, p = some x → x ∈ nodes)
    (hpath : Path next q xs p) (hnodup : xs.Nodup) (hxs : ∀ x ∈ xs, x ∈ nodes) :
    (∃ ys, Path next q ys none) ∨ ∃ ys x zs, Lasso next q ys x zs := by
  -- the number of nodes that are not on the way yet
  induction hk : (hfinite.toFinset.card - xs.length) using Nat.strong_induction_on generalizing p xs with
  | _ k ih =>
      cases p with
      | none => exact .inl ⟨xs, hpath⟩
      | some x =>
          by_cases hx : x ∈ xs
          · obtain ⟨before, after, rfl, hbefore, hafter⟩ := hpath.split hx
            exact .inr ⟨before, x, after, hbefore, hafter, hnodup⟩
          · have hnew : (xs ++ [x]).Nodup := List.nodup_append.mpr
              ⟨hnodup, List.nodup_singleton x, fun a ha b hb heq => hx (List.mem_singleton.mp hb ▸ heq ▸ ha)⟩
            have hin : ∀ y ∈ xs ++ [x], y ∈ nodes := by
              intro y hy
              rcases List.mem_append.mp hy with hy | hy
              · exact hxs y hy
              · exact List.mem_singleton.mp hy ▸ hp x rfl
            have hcount : (xs ++ [x]).length ≤ hfinite.toFinset.card := by
              classical
              rw [← List.toFinset_card_of_nodup hnew]
              exact Finset.card_le_card fun y hy => hfinite.mem_toFinset.mpr (hin y (List.mem_toFinset.mp hy))
            rw [List.length_append, List.length_singleton] at hcount
            have hmore : Path next q (xs ++ [x]) (next x) :=
              path_append.mpr ⟨some x, hpath, path_cons.mpr ⟨rfl, path_nil.mpr rfl⟩⟩
            refine ih _ ?_ (hclosed x (hp x rfl)) hmore hnew hin rfl
            rw [List.length_append, List.length_singleton]
            omega

/-- **An end or a loop.** -/
theorem path_or_lasso {nodes : Set π} (hfinite : nodes.Finite)
    (hclosed : ∀ x ∈ nodes, ∀ y, next x = some y → y ∈ nodes) (hp : ∀ x, p = some x → x ∈ nodes) :
    (∃ ys, Path next p ys none) ∨ ∃ ys x zs, Lasso next p ys x zs :=
  path_or_lasso_of_finite hfinite hclosed hp (path_nil.mpr rfl) List.nodup_nil nofun

end Workbench
