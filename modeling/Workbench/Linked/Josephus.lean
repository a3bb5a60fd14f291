import Workbench.Lib.Circle
import Workbench.Lib.Strided
import Workbench.Lib.While
import Workbench.Sorts.Exchange
import Mathlib.Data.List.Range

/-!
# `Linked.Josephus` — `Josephus`

The soldiers stand in an array, each with the index of the next living one. What is in the array that is allocated does
not matter, and an access outside of it fails. The loops have fuel for a turn more than there are soldiers.

## Contents
* `josephus` — the function;
* `fill_circle` — the construction loop makes a circle of all, from two soldiers on;
* `kill_survivor` — the other loop ends at who is left;
* `josephus_iff` — the numbers of soldiers for which the result is right.
-/

namespace Workbench.Josephus

open Circle
open Sorts (sizeSub sizeSub_of_le)

/-! ## The function -/

/-- The body of the construction loop. -/
def fillTurn : List Nat × Nat → Option (List Nat × Nat)
  | (players, i) => do
      let players ← writeCell players i (i + 1)
      return (players, i + 1)

/-- The condition of the other loop. -/
def goesOn : List Nat × Nat → Option Bool
  | (players, i) => do
      let next ← players[i]?
      return decide (i ≠ next)

/-- The body of the other loop. -/
def killTurn : List Nat × Nat → Option (List Nat × Nat)
  | (players, i) => do
      let killed ← players[i]?
      let next ← players[killed]?
      let players ← writeCell players i next
      let i ← players[i]?
      return (players, i)

/-- From the array that is allocated for the soldiers. -/
def josephus (players : List Nat) : Option Nat := do
  let lengthOfSoldiers := players.length
  let (players, i) ←
    whileDo (fun s => some (decide (s.2 ≤ sizeSub lengthOfSoldiers 2))) fillTurn (lengthOfSoldiers + 1) (players, 0)
  let players ← writeCell players i 0
  let (_, i) ← whileDo goesOn killTurn (lengthOfSoldiers + 1) (players, 0)
  return i + 1

variable {players : List Nat} {a b n k : Nat} {rest : List Nat}

/-! ## The construction -/

/-- The soldiers that are linked so far. -/
def Filled (n : Nat) (s : List Nat × Nat) : Prop := s.1.length = n ∧ ∀ j, j < s.2 → s.1[j]? = some (j + 1)

theorem fillTurn_filled (s : List Nat × Nat) (h : Filled n s) (hlt : s.2 < n - 1) :
    ∃ s', fillTurn s = some s' ∧ Filled n s' ∧ s'.2 = s.2 + 1 := by
  obtain ⟨players, i⟩ := s
  obtain ⟨hlength, hfilled⟩ := h
  dsimp only at hlength hfilled hlt
  have hi : i < players.length := by omega
  refine ⟨(players.set i (i + 1), i + 1), ?_, ⟨?_, fun j hj => ?_⟩, rfl⟩
  · rw [fillTurn, writeCell_natCast hi]
    rfl
  · exact List.length_set.trans hlength
  · by_cases hij : i = j
    · subst hij
      exact List.getElem?_set_self hi
    · rw [List.getElem?_set_ne hij]
      exact hfilled j (Nat.lt_of_le_of_ne (Nat.le_of_lt_succ hj) (Ne.symm hij))

/-- All of the soldiers are in a circle. -/
theorem closed_range (hnext : ∀ j, j < k → players[j]? = some (j + 1)) (hlast : players[k]? = some 0) :
    Closed (fun x => players[x]?) (List.range (k + 1)) := by
  have hchain : (List.range (k + 1) ++ [0]).IsChain fun x y => players[x]? = some y := by
    rw [List.range_succ, List.append_assoc, List.singleton_append, List.isChain_append_cons_cons, ← List.range_succ,
      List.isChain_range_succ]
    exact ⟨hnext, hlast, .singleton 0⟩
  rw [List.range_succ_eq_map] at hchain ⊢
  exact hchain

theorem fill_circle (hlength : 2 ≤ players.length) :
    ∃ players' i, whileDo (fun s => some (decide (s.2 ≤ sizeSub players.length 2))) fillTurn (players.length + 1)
        (players, 0) = some (players', i) ∧
      ∃ circle, writeCell players' i 0 = some circle ∧
        Closed (fun x => circle[x]?) (List.range players.length) := by
  have hcond : (fun s : List Nat × Nat => some (decide (s.2 ≤ sizeSub players.length 2))) =
      fun s => some (decide (s.2 < players.length - 1)) := by
    funext s
    rw [sizeSub_of_le hlength]
    exact congrArg some (decide_eq_decide.mpr (by omega))
  obtain ⟨⟨players', i⟩, hloop, ⟨hlength', hfilled⟩, hi⟩ :=
    whileDo_upTo fillTurn (Filled players.length) Prod.snd (players.length - 1) fillTurn_filled
      (s := (players, 0)) ⟨rfl, nofun⟩ (Nat.zero_le _) (show players.length - 1 - 0 < players.length + 1 by omega)
  dsimp only at hlength' hfilled hi
  have hlt : i < players'.length := by omega
  have hrange : players.length = i + 1 := by omega
  refine ⟨players', i, by rw [hcond, hloop], players'.set i 0, writeCell_natCast hlt 0, ?_⟩
  rw [hrange]
  refine closed_range (fun j hj => ?_) (List.getElem?_set_self hlt)
  rw [List.getElem?_set_ne (Nat.ne_of_gt hj), hfilled j hj]

/-! ## The eliminations -/

/-- The soldier in front kills the next one, and the one after that is in front. -/
theorem killTurn_eq (h : Closed (fun x => players[x]?) (a :: b :: rest)) :
    ∃ c rest', rest ++ [a] = c :: rest' ∧ killTurn (players, a) = some (players.set a c, c) ∧
      ((a :: b :: rest).Nodup → Closed (fun x => (players.set a c)[x]?) (c :: rest')) := by
  have ha : players[a]? = some b := h.next_eq
  have hb : players[b]? = some (rest.head?.getD a) := h.next_next
  have hlt : a < players.length := (List.getElem?_eq_some_iff.mp ha).1
  have hset : (players.set a (rest.head?.getD a))[a]? = some (rest.head?.getD a) := List.getElem?_set_self hlt
  obtain ⟨rest', hrest⟩ : ∃ rest', rest ++ [a] = rest.head?.getD a :: rest' := by
    cases rest with
    | nil => exact ⟨[], rfl⟩
    | cons c rest => exact ⟨rest ++ [a], rfl⟩
  refine ⟨_, rest', hrest, ?_, fun hnodup => ?_⟩
  · rw [killTurn, ha, Option.bind_eq_bind, Option.bind_some, hb, Option.bind_eq_bind, Option.bind_some,
      writeCell_natCast hlt, Option.bind_some, hset]
    rfl
  · rw [← hrest]
    refine h.takeOut (hset.trans hb.symm) fun x hx => List.getElem?_set_ne ?_
    rintro rfl
    exact (List.nodup_cons.mp hnodup).1 (List.mem_cons_of_mem b hx)

/-- **The loop ends** at the soldier who is left. -/
theorem kill_survivor (fuel : Nat) (h : Closed (fun x => players[x]?) (a :: rest)) (hnodup : (a :: rest).Nodup)
    (hfuel : rest.length < fuel) :
    ∃ players' last, whileDo goesOn killTurn fuel (players, a) = some (players', last) ∧
      survivor (a :: rest) = some last := by
  induction fuel generalizing players a rest with
  | zero => exact absurd hfuel (Nat.not_lt_zero _)
  | succ fuel ih =>
      cases rest with
      | nil =>
          have ha : players[a]? = some a := closed_singleton.mp h
          have hcond : goesOn (players, a) = some false := by
            rw [goesOn, ha]
            exact congrArg some (decide_eq_false (not_not_intro rfl))
          exact ⟨players, a, whileDo_false hcond, by rw [survivor]⟩
      | cons b rest =>
          have hne : a ≠ b := fun hab => (List.nodup_cons.mp hnodup).1 (hab ▸ List.mem_cons_self)
          have hcond : goesOn (players, a) = some true := by
            have ha : players[a]? = some b := h.next_eq
            rw [goesOn, ha]
            exact congrArg some (decide_eq_true hne)
          obtain ⟨c, rest', hrest, hturn, hclosed⟩ := killTurn_eq h
          have hnodup' : (c :: rest').Nodup := by
            rw [← hrest, List.nodup_append_comm]
            exact hnodup.sublist (List.Sublist.cons_cons a (List.sublist_cons_self b rest))
          have hlength : rest'.length = rest.length := by
            have hlengths := congrArg List.length hrest
            rw [List.length_append, List.length_singleton, List.length_cons] at hlengths
            omega
          obtain ⟨players', last, hloop, hlast⟩ := ih (hclosed hnodup) hnodup'
            (by rw [hlength]; exact Nat.lt_of_succ_lt_succ hfuel)
          refine ⟨players', last, by rw [whileDo_true hcond hturn, hloop], ?_⟩
          rw [survivor, hrest, hlast]

/-! ## All soldiers -/

/-- Every access is in the array, the loops end, and the result is the soldier who is left of the circle, as it is by
    the largest power of two. -/
def Survives (players : List Nat) : Prop :=
  ∃ result, josephus players = some result ∧ survivor (List.range' 1 players.length) = some result ∧
    ∀ k, 2 ^ k ≤ players.length → players.length < 2 ^ (k + 1) → result = 2 * (players.length - 2 ^ k) + 1

theorem josephus_survivor (hlength : 2 ≤ players.length) :
    josephus players = (survivor (List.range players.length)).map (· + 1) := by
  obtain ⟨players', i, hloop, circle, hwrite, hclosed⟩ := fill_circle hlength
  obtain ⟨n, hn⟩ : ∃ n, players.length = n + 1 := ⟨players.length - 1, by omega⟩
  have hrange : List.range players.length = 0 :: (List.range n).map Nat.succ := by rw [hn, List.range_succ_eq_map]
  have hnodup := List.nodup_range (n := players.length)
  rw [hrange] at hclosed hnodup ⊢
  obtain ⟨circle', last, hkill, hlast⟩ := kill_survivor (players.length + 1) hclosed hnodup
    (by rw [List.length_map, List.length_range]; omega)
  rw [josephus, hloop, Option.bind_eq_bind, Option.bind_some]
  show (writeCell players' i 0).bind _ = _
  rw [hwrite, Option.bind_some, hkill, hlast]
  rfl

/-- For one soldier, the bound of the construction loop wraps. -/
theorem josephus_one (hlength : players.length = 1) : josephus players = none := by
  obtain ⟨x, rfl⟩ := List.length_eq_one_iff.mp hlength
  rfl

/-- From two soldiers on, by the place of who is left. -/
theorem survives (hlength : 2 ≤ players.length) : Survives players := by
  have hlow : 2 ^ players.length.log2 ≤ players.length := Nat.log2_self_le (by omega)
  have hhigh : players.length < 2 ^ (players.length.log2 + 1) := Nat.lt_log2_self
  have hplace : ∀ k, 2 ^ k ≤ players.length → players.length < 2 ^ (k + 1) →
      josephus players = some (2 * (players.length - 2 ^ k) + 1) ∧
        survivor (List.range' 1 players.length) = some (2 * (players.length - 2 ^ k) + 1) := by
    intro k hlow hhigh
    have hlt : 2 * (players.length - 2 ^ k) < players.length := by
      rw [Nat.pow_succ] at hhigh
      omega
    constructor
    · rw [josephus_survivor hlength, survivor_eq (k := k) (by rwa [List.length_range]) (by rwa [List.length_range]),
        List.length_range, List.getElem?_range hlt]
      rfl
    · rw [survivor_eq (k := k) (by rwa [List.length_range']) (by rwa [List.length_range']), List.length_range',
        List.getElem?_range' hlt, Nat.one_mul, Nat.add_comm]
  obtain ⟨hresult, hleft⟩ := hplace _ hlow hhigh
  refine ⟨_, hresult, hleft, fun k hlow' hhigh' => ?_⟩
  exact Option.some.inj (hresult.symm.trans (hplace k hlow' hhigh').1)

/-- **The result is right if and only if** there are two soldiers or more. -/
theorem josephus_iff (players : List Nat) (hpos : 1 ≤ players.length) : Survives players ↔ 2 ≤ players.length := by
  refine ⟨fun ⟨result, hresult, _⟩ => ?_, survives⟩
  by_contra hlength
  rw [josephus_one (by omega)] at hresult
  cases hresult

theorem josephus_sample : Survives [7, 7, 7, 7, 7] := (josephus_iff [7, 7, 7, 7, 7] (by decide)).mpr (by decide)

/-- One soldier kills out of the array. -/
theorem one_is_outside : ¬ ∀ players : List Nat, 1 ≤ players.length → Survives players := by
  intro hall
  obtain ⟨result, hresult, -⟩ := hall [7] (by decide)
  cases hresult

end Workbench.Josephus
