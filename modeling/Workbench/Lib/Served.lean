import Mathlib.Data.List.Find
import Mathlib.Data.List.TakeWhile
import Mathlib.Order.Lattice

/-!
# `Lib.Served` — first come, first served among equal keys

Things arrive one after the other and wait in a list in the order of their keys. Things with one key wait in the order
in which they arrived.

## Main results
* `Served.insert` — a thing that arrives is put behind all that are not later;
* `Served.stopsAt` — a walk that stops elsewhere puts a new thing out of order;
* `Served.erase`, `Served.filter`, `Served.tail` — things that go;
* `Served.head`, `Served.head_split`, `head_unique` — the thing that goes next;
* `Served.find?_eq`, `Served.eraseP` — the thing that goes next among those that somebody asks for.
-/

namespace Workbench

variable {α κ : Type} [LinearOrder κ] {key : α → κ} {arrived xs before rest : List α} {x : α} {p : α → Bool}

/-- `xs` are the things that arrived, in the order in which they are served. -/
structure Served (key : α → κ) (arrived xs : List α) : Prop where
  sorted : xs.Pairwise (fun a b => key a ≤ key b)
  stable : ∀ k, xs.filter (fun a => decide (key a = k)) = arrived.filter (fun a => decide (key a = k))

theorem Served.nil : Served key [] [] := ⟨.nil, fun _ => rfl⟩

theorem Served.mem_iff (h : Served key arrived xs) (a : α) : a ∈ xs ↔ a ∈ arrived := by
  have hmem : ∀ l : List α, a ∈ l ↔ a ∈ l.filter (fun b => decide (key b = key a)) := by
    intro l
    rw [List.mem_filter]
    simp
  rw [hmem xs, hmem arrived, h.stable]

theorem Served.perm [DecidableEq α] (h : Served key arrived xs) : xs.Perm arrived := by
  refine List.perm_iff_count.mpr fun a => ?_
  have hcount : ∀ l : List α, (l.filter (fun b => decide (key b = key a))).count a = l.count a :=
    fun l => List.count_filter (by simp)
  rw [← hcount xs, ← hcount arrived, h.stable]

/-- A list in order is first what is not later than `x`, and then what is later. -/
theorem exists_split (h : xs.Pairwise (fun a b => key a ≤ key b)) (x : α) :
    ∃ before rest, xs = before ++ rest ∧ (∀ a ∈ before, key a ≤ key x) ∧ ∀ a ∈ rest, key x < key a := by
  induction xs with
  | nil => exact ⟨[], [], rfl, fun a ha => absurd ha List.not_mem_nil, fun a ha => absurd ha List.not_mem_nil⟩
  | cons y xs ih =>
      obtain ⟨hy, hxs⟩ := List.pairwise_cons.mp h
      by_cases hle : key y ≤ key x
      · obtain ⟨before, rest, rfl, hbefore, hrest⟩ := ih hxs
        refine ⟨y :: before, rest, rfl, ?_, hrest⟩
        intro a ha
        rcases List.mem_cons.mp ha with rfl | ha
        · exact hle
        · exact hbefore a ha
      · refine ⟨[], y :: xs, rfl, fun a ha => absurd ha List.not_mem_nil, ?_⟩
        intro a ha
        rcases List.mem_cons.mp ha with rfl | ha
        · exact lt_of_not_ge hle
        · exact lt_of_lt_of_le (lt_of_not_ge hle) (hy a ha)

/-- The walk stops where the later things begin: it goes past all others, and not past the first later thing. -/
def StopsAt (key : α → κ) (p : α → Bool) (x : α) (xs : List α) : Prop :=
  (∀ a ∈ xs, key a ≤ key x → p a = true) ∧
    ∀ a ∈ xs, key x < key a → (∀ b ∈ xs, key x < key b → key a ≤ key b) → p a = false

theorem walk_split (hbefore : ∀ a ∈ before, p a = true) (hrest : ∀ a l, rest = a :: l → p a = false) :
    (before ++ rest).takeWhile p = before ∧ (before ++ rest).dropWhile p = rest := by
  rw [List.takeWhile_append_of_pos hbefore, List.dropWhile_append_of_pos hbefore]
  cases rest with
  | nil => exact ⟨by simp, by simp⟩
  | cons a l =>
      have hstop : ¬ p a = true := by simp [hrest a l rfl]
      rw [List.takeWhile_cons_of_neg hstop, List.dropWhile_cons_of_neg hstop, List.append_nil]
      exact ⟨rfl, rfl⟩

/-- **A thing arrives**, and is put where the walk stops. -/
theorem Served.insert (h : Served key arrived xs) (hstops : StopsAt key p x xs) :
    Served key (arrived ++ [x]) (xs.takeWhile p ++ x :: xs.dropWhile p) := by
  obtain ⟨before, rest, rfl, hbefore, hrest⟩ := exists_split h.sorted x
  have hwalk : (before ++ rest).takeWhile p = before ∧ (before ++ rest).dropWhile p = rest := by
    refine walk_split (fun a ha => hstops.1 a (List.mem_append_left _ ha) (hbefore a ha)) ?_
    rintro a l rfl
    -- the first of the later things is the earliest of them
    refine hstops.2 a (List.mem_append_right _ List.mem_cons_self) (hrest a List.mem_cons_self) ?_
    intro b hb hlt
    rcases List.mem_append.mp hb with hb | hb
    · exact absurd hlt (not_lt_of_ge (hbefore b hb))
    · rcases List.mem_cons.mp hb with rfl | hb
      · exact le_refl _
      · exact (List.pairwise_cons.mp (List.pairwise_append.mp h.sorted).2.1).1 b hb
  rw [hwalk.1, hwalk.2]
  obtain ⟨hsortedl, hsortedr, hsorted⟩ := List.pairwise_append.mp h.sorted
  constructor
  · refine List.pairwise_append.mpr ⟨hsortedl, List.pairwise_cons.mpr ⟨fun a ha => le_of_lt (hrest a ha), hsortedr⟩, ?_⟩
    intro a ha b hb
    rcases List.mem_cons.mp hb with rfl | hb
    · exact hbefore a ha
    · exact hsorted a ha b hb
  · intro k
    rw [List.filter_append, List.filter_append, ← h.stable k, List.filter_append, List.append_assoc]
    by_cases hk : key x = k
    · -- no later thing has the key of `x`
      have hnone : rest.filter (fun a => decide (key a = k)) = [] := by
        refine List.filter_eq_nil_iff.mpr fun a ha => ?_
        simp [← hk, ne_of_gt (hrest a ha)]
      rw [List.filter_cons_of_pos (by simp [hk]), hnone, List.nil_append, List.filter_cons_of_pos (by simp [hk])]
      rfl
    · rw [List.filter_cons_of_neg (by simp [hk]), List.filter_cons_of_neg (by simp [hk]), List.filter_nil,
        List.append_nil]

/-- **The walk has to stop there**: elsewhere a new thing is out of order. -/
theorem Served.stopsAt (h : Served key (arrived ++ [x]) (xs.takeWhile p ++ x :: xs.dropWhile p)) (hnew : x ∉ xs)
    (hp : ∀ a ∈ xs, ∀ b ∈ xs, key a = key b → p a = p b) : StopsAt key p x xs := by
  obtain ⟨-, hsortedr, hbefore⟩ := List.pairwise_append.mp h.sorted
  obtain ⟨hrest, hsorted⟩ := List.pairwise_cons.mp hsortedr
  -- behind `x` there is nothing with its key, as `x` came last
  have hlater : ∀ a ∈ xs.dropWhile p, key x < key a := by
    intro a ha
    refine lt_of_le_of_ne (hrest a ha) fun hkey => ?_
    have hstable := h.stable (key x)
    rw [List.filter_append, List.filter_cons_of_pos (by simp), List.filter_append, List.filter_cons_of_pos (by simp),
      List.filter_nil] at hstable
    have hmem : a ∈ (xs.dropWhile p).filter (fun b => decide (key b = key x)) := by
      rw [List.mem_filter]
      exact ⟨ha, by simp [hkey]⟩
    obtain ⟨l, b, hl⟩ : ∃ l b, (xs.dropWhile p).filter (fun b => decide (key b = key x)) = l ++ [b] :=
      ⟨_, _, (List.dropLast_concat_getLast (List.ne_nil_of_mem hmem)).symm⟩
    rw [hl, ← List.cons_append, ← List.append_assoc] at hstable
    obtain ⟨-, hb⟩ := List.append_inj' hstable rfl
    obtain rfl := List.head_eq_of_cons_eq hb
    have hmem' : b ∈ (xs.dropWhile p).filter (fun a => decide (key a = key b)) := by simp [hl]
    exact hnew ((List.dropWhile_sublist p).subset (List.mem_filter.mp hmem').1)
  have hmem : ∀ a ∈ xs, a ∈ xs.takeWhile p ∨ a ∈ xs.dropWhile p := by
    intro a ha
    rwa [← List.takeWhile_append_dropWhile (p := p) (l := xs), List.mem_append] at ha
  constructor
  · intro a ha hle
    rcases hmem a ha with ha | ha
    · exact List.all_eq_true.mp List.all_takeWhile a ha
    · exact absurd (hlater a ha) (not_lt_of_ge hle)
  · intro a ha hlt hleast
    rcases hmem a ha with ha' | ha'
    · exact absurd hlt (not_lt_of_ge (hbefore a ha' x List.mem_cons_self))
    · -- the walk stops at the first of the later things, which is no later than `a`
      cases hdrop : xs.dropWhile p with
      | nil =>
          rw [hdrop] at ha'
          cases ha'
      | cons b l =>
          have hb : b ∈ xs.dropWhile p := hdrop ▸ List.mem_cons_self
          have hbmem : b ∈ xs := (List.dropWhile_sublist p).subset hb
          have hstop : p b = false := by
            have hhead := List.head?_dropWhile_not p xs
            rw [hdrop] at hhead
            exact hhead
          have hle : key b ≤ key a := by
            rw [hdrop] at ha' hsorted
            rcases List.mem_cons.mp ha' with rfl | ha'
            · exact le_refl _
            · exact (List.pairwise_cons.mp hsorted).1 a ha'
          rw [hp a ha b hbmem (le_antisymm (hleast b hbmem (hlater b hb)) hle)]
          exact hstop

theorem Served.erase [DecidableEq α] (h : Served key arrived xs) (x : α) :
    Served key (arrived.erase x) (xs.erase x) where
  sorted := h.sorted.sublist List.erase_sublist
  stable k := by rw [← List.erase_filter, ← List.erase_filter, h.stable]

theorem Served.tail [DecidableEq α] (h : Served key arrived (x :: xs)) : Served key (arrived.erase x) xs := by
  have herase := h.erase x
  rwa [List.erase_cons_head] at herase

/-- Things that go for a reason of their own. -/
theorem Served.filter (h : Served key arrived xs) (p : α → Bool) : Served key (arrived.filter p) (xs.filter p) where
  sorted := h.sorted.sublist List.filter_sublist
  stable k := by
    have hcomm : ∀ l : List α, (l.filter p).filter (fun a => decide (key a = k)) =
        (l.filter (fun a => decide (key a = k))).filter p := by
      intro l
      rw [List.filter_filter, List.filter_filter]
      exact congrArg (fun q => l.filter q) (funext fun a => Bool.and_comm _ _)
    rw [hcomm, hcomm, h.stable]

/-- **What is served next** is not later than anything else, and came first among those with its key. -/
theorem Served.head (h : Served key arrived (x :: xs)) :
    (∀ a ∈ arrived, key x ≤ key a) ∧ (arrived.filter (fun a => decide (key a = key x))).head? = some x := by
  constructor
  · intro a ha
    rcases List.mem_cons.mp ((h.mem_iff a).mpr ha) with rfl | ha
    · exact le_refl _
    · exact (List.pairwise_cons.mp h.sorted).1 a ha
  · rw [← h.stable, List.filter_cons_of_pos (by simp)]
    rfl

/-- What came before the thing that is served next is later, and what came after it is not earlier. -/
theorem Served.head_split (h : Served key arrived (x :: xs)) : ∃ before after, arrived = before ++ x :: after ∧
    (∀ a ∈ before, key x < key a) ∧ ∀ a ∈ after, key x ≤ key a := by
  obtain ⟨hle, hhead⟩ := h.head
  obtain ⟨rest, hfilter⟩ := List.head?_eq_some_iff.mp hhead
  obtain ⟨before, after, rfl, hbefore, -⟩ := List.filter_eq_cons_iff.mp hfilter
  refine ⟨before, after, rfl, fun a ha => ?_, fun a ha => ?_⟩
  · have hne : ¬ key a = key x := fun heq => hbefore a ha (decide_eq_true heq)
    exact lt_of_le_of_ne (hle a (List.mem_append_left _ ha)) (Ne.symm hne)
  · exact hle a (List.mem_append_right _ (List.mem_cons_of_mem _ ha))

/-- Only one thing is as such. -/
theorem head_unique (key : α → κ) {before' rest' : List α} {y : α}
    (heq : before ++ x :: rest = before' ++ y :: rest')
    (hbefore : ∀ a ∈ before, key x < key a) (hrest : ∀ a ∈ rest, key x ≤ key a)
    (hbefore' : ∀ a ∈ before', key y < key a) (hrest' : ∀ a ∈ rest', key y ≤ key a) : x = y := by
  rcases List.append_eq_append_iff.mp heq with ⟨as, hfront, hback⟩ | ⟨as, hfront, hback⟩
  · cases as with
    | nil => exact (List.cons.inj hback).1
    | cons a as =>
        -- `x` is before `y`, and `y` after `x`
        obtain ⟨rfl, htail⟩ := List.cons.inj hback
        have hlt := hbefore' x (hfront ▸ by simp)
        exact absurd (hrest y (htail ▸ by simp)) (not_le_of_gt hlt)
  · cases as with
    | nil => exact (List.cons.inj hback).1.symm
    | cons a as =>
        obtain ⟨rfl, htail⟩ := List.cons.inj hback
        have hlt := hbefore y (hfront ▸ by simp)
        exact absurd (hrest' x (htail ▸ by simp)) (not_le_of_gt hlt)

/-! ## Things that somebody asks for -/

/-- The thing is asked for, and nothing that is asked for has an earlier key. -/
def goesFirst (key : α → κ) (p : α → Bool) (arrived : List α) (x : α) : Bool :=
  p x && arrived.all fun y => !p y || decide (key x ≤ key y)

theorem goesFirst_iff : goesFirst key p arrived x = true ↔ p x = true ∧ ∀ y ∈ arrived, p y = true → key x ≤ key y := by
  simp only [goesFirst, Bool.and_eq_true, List.all_eq_true, Bool.or_eq_true, Bool.not_eq_true', decide_eq_true_eq]
  refine and_congr_right fun _ => forall_congr' fun y => imp_congr_right fun _ => ?_
  by_cases hy : p y = true <;> simp [hy]

/-- What is asked for first in the order of the keys has the earliest key of all that is asked for. -/
theorem Served.goesFirst_iff_key (h : Served key arrived (before ++ x :: rest)) (hbefore : ∀ a ∈ before, ¬ p a = true)
    (hx : p x = true) (y : α) (hy : y ∈ arrived) :
    goesFirst key p arrived y = true ↔ p y = true ∧ key y = key x := by
  have hleast : ∀ a ∈ arrived, p a = true → key x ≤ key a := by
    intro a ha hpa
    rcases List.mem_append.mp ((h.mem_iff a).mpr ha) with hmem | hmem
    · exact absurd hpa (hbefore a hmem)
    · rcases List.mem_cons.mp hmem with rfl | hmem
      · exact le_refl _
      · exact (List.pairwise_cons.mp (List.pairwise_append.mp h.sorted).2.1).1 a hmem
  have harrived : x ∈ arrived := (h.mem_iff x).mp (by simp)
  rw [goesFirst_iff]
  refine and_congr_right fun hpy => ⟨fun hall => ?_, fun hkey a ha hpa => ?_⟩
  · exact le_antisymm (hall x harrived hx) (hleast y hy hpy)
  · rw [hkey]
    exact hleast a ha hpa

/-- **What is asked for first** in the order of the keys is what goes first among the things that arrived. -/
theorem Served.find?_eq (h : Served key arrived xs) : xs.find? p = arrived.find? (goesFirst key p arrived) := by
  cases hfind : xs.find? p with
  | none =>
      symm
      refine List.find?_eq_none.mpr fun y hy hfirst => ?_
      exact List.find?_eq_none.mp hfind y ((h.mem_iff y).mpr hy) (goesFirst_iff.mp hfirst).1
  | some x =>
      obtain ⟨hx, before, rest, rfl, hbefore⟩ := List.find?_eq_some_iff_append.mp hfind
      have hbefore : ∀ a ∈ before, ¬ p a = true := fun a ha => by simpa using hbefore a ha
      have hkey := fun y hy => h.goesFirst_iff_key hbefore hx y hy
      have hfirst : arrived.find? (goesFirst key p arrived) =
          arrived.find? (fun y => decide (decide (key y = key x) = true ∧ p y = true)) := by
        refine List.find?_congr fun y hy => ?_
        rw [Bool.eq_iff_iff, hkey y hy]
        simp [and_comm]
      rw [hfirst, ← List.find?_filter, ← h.stable, List.find?_filter]
      symm
      refine List.find?_eq_some_iff_append.mpr ⟨by simp [hx], before, rest, rfl, fun a ha => ?_⟩
      simp [hbefore a ha]

theorem eraseP_congr {q : α → Bool} {l : List α} (h : ∀ a ∈ l, p a = q a) : l.eraseP p = l.eraseP q := by
  induction l with
  | nil => rfl
  | cons a l ih =>
      rw [List.eraseP_cons, List.eraseP_cons, h a List.mem_cons_self,
        ih fun b hb => h b (List.mem_cons_of_mem a hb)]

/-- What goes is not in the part that is looked at. -/
theorem filter_eraseP_of_not {f : α → Bool} (h : ∀ a, p a = true → ¬ f a = true) (l : List α) :
    (l.eraseP p).filter f = l.filter f := by
  rcases List.exists_or_eq_self_of_eraseP p l with heq | ⟨a, before, rest, -, ha, rfl, heq⟩
  · rw [heq]
  · rw [heq, List.filter_append, List.filter_append, List.filter_cons_of_neg (h a ha)]

/-- **What is asked for first** goes. -/
theorem Served.eraseP (h : Served key arrived xs) (p : α → Bool) :
    Served key (arrived.eraseP (goesFirst key p arrived)) (xs.eraseP p) := by
  refine ⟨h.sorted.sublist List.eraseP_sublist, fun k => ?_⟩
  cases hfind : xs.find? p with
  | none =>
      have hxs := List.find?_eq_none.mp hfind
      have harrived : ∀ y ∈ arrived, ¬ goesFirst key p arrived y = true :=
        fun y hy hfirst => hxs y ((h.mem_iff y).mpr hy) (goesFirst_iff.mp hfirst).1
      rw [List.eraseP_of_forall_not hxs, List.eraseP_of_forall_not harrived, h.stable]
  | some x =>
      obtain ⟨hx, before, rest, rfl, hbefore⟩ := List.find?_eq_some_iff_append.mp hfind
      have hbefore : ∀ a ∈ before, ¬ p a = true := fun a ha => by simpa using hbefore a ha
      -- in both lists the first thing with the key of `x` goes
      let q : α → Bool := fun y => p y && decide (key y = key x)
      have hq : arrived.eraseP (goesFirst key p arrived) = arrived.eraseP q := by
        refine eraseP_congr fun y hy => ?_
        rw [Bool.eq_iff_iff, h.goesFirst_iff_key hbefore hx y hy]
        simp [q]
      have hp : (before ++ x :: rest).eraseP p = (before ++ x :: rest).eraseP q := by
        rw [List.eraseP_append_right _ hbefore, List.eraseP_append_right _ fun a ha => by simp [q, hbefore a ha],
          List.eraseP_cons_of_pos hx, List.eraseP_cons_of_pos (by simp [q, hx])]
      rw [hq, hp]
      by_cases hk : k = key x
      · subst hk
        rw [← List.eraseP_filter, ← List.eraseP_filter, h.stable]
      · have hother : ∀ a, q a = true → ¬ decide (key a = k) = true := by
          intro a ha
          simp only [q, Bool.and_eq_true, decide_eq_true_eq] at ha
          simp [ha.2, Ne.symm hk]
        rw [filter_eraseP_of_not hother, filter_eraseP_of_not hother, h.stable]

end Workbench
