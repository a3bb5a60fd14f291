import Workbench.Handles.CString
import Workbench.Lib.Strided
import Workbench.Lib.While

/-!
# `Text.Strcat` — `Strcat` and `Strncat`

The strings are in blocks of their own, and an access outside of a block fails. The loops leave the cursor where the NUL
has to be. Both functions write it one place behind.

## Main results
* `appendLoops_eq` — what the loops leave in the block;
* `strcat_iff`, `strncat_iff` — when the block has the right string, for any block with room for it;
* `cat_exact` — a block without a spare byte is overrun.
-/

namespace Workbench.Text

open Handles (cstr strlen cstr_cons_zero exists_rest getElem?_strlen getElem?_of_lt_strlen not_mem_cstr)

/-! ## The functions -/

/-- The loop that looks for the end of `dest`. -/
def endOf (dest : List UInt8) : Option Nat :=
  whileDo (fun i => dest[i]?.map fun c => decide (c ≠ 0)) (fun i => some (i + 1)) (dest.length + 1) 0

/-- The block of `dest`, and the places in `dest` and `src`. -/
structure Copy where
  dest : List UInt8
  i : Nat
  j : Nat

/-- The condition of the copying loop. `Strcat` has no bound. -/
def copying (src : List UInt8) (within : Nat → Bool) (s : Copy) : Option Bool := do
  let c ← src[s.j]?
  return decide (c ≠ 0) && within s.j

def copyTurn (src : List UInt8) (s : Copy) : Option Copy := do
  let c ← src[s.j]?
  let dest ← writeCell s.dest s.i c
  return ⟨dest, s.i + 1, s.j + 1⟩

/-- Both loops. -/
def appendLoops (within : Nat → Bool) (dest src : List UInt8) : Option Copy := do
  let i ← endOf dest
  whileDo (copying src within) (copyTurn src) (src.length + 1) ⟨dest, i, 0⟩

def strcat (dest src : List UInt8) : Option (List UInt8) := do
  let s ← appendLoops (fun _ => true) dest src
  -- `*(++dest)`
  writeCell s.dest (s.i + 1) 0

def strncat (dest src : List UInt8) (n : Nat) : Option (List UInt8) := do
  let s ← appendLoops (fun j => decide (j < n)) dest src
  -- `dest[i+1]`
  writeCell s.dest (s.i + 1) 0

variable {dest src : List UInt8} {within : Nat → Bool} {n k : Nat}

/-! ## The loops -/

theorem endOf_eq (hdest : 0 ∈ dest) : endOf dest = some (strlen dest) := by
  have hlt : strlen dest < dest.length := by
    obtain ⟨hlt, -⟩ := List.getElem?_eq_some_iff.mp (getElem?_strlen hdest)
    exact hlt
  have hturn : ∀ i, i ≤ strlen dest → (dest[i]?.map fun c => decide (c ≠ 0)) = some false ∨
      (dest[i]?.map fun c => decide (c ≠ 0)) = some true ∧
        ∃ i', some (i + 1) = some i' ∧ i' ≤ strlen dest ∧ strlen dest - i' < strlen dest - i := by
    intro i hi
    rcases Nat.lt_or_eq_of_le hi with hbefore | rfl
    · obtain ⟨hget, hne⟩ := getElem?_of_lt_strlen hbefore
      exact .inr ⟨by rw [hget, Option.map_some, decide_eq_true hne], i + 1, rfl, hbefore, by omega⟩
    · exact .inl (by rw [getElem?_strlen hdest]; rfl)
  obtain ⟨i, hloop, hle, hend⟩ := whileDo_ends (fun i => dest[i]?.map fun c => decide (c ≠ 0)) (fun i => some (i + 1))
    (· ≤ strlen dest) (strlen dest - ·) hturn (Nat.zero_le _) (show strlen dest - 0 < dest.length + 1 by omega)
  rcases Nat.lt_or_eq_of_le hle with hbefore | rfl
  · obtain ⟨hget, hne⟩ := getElem?_of_lt_strlen hbefore
    rw [hget, Option.map_some, decide_eq_true hne] at hend
    cases hend
  · exact hloop

/-- The block with the first bytes of `src` behind the string. -/
def joined (dest src : List UInt8) (k : Nat) : List UInt8 :=
  cstr dest ++ (cstr src).take k ++ dest.drop (strlen dest + k)

theorem joined_zero (dest src : List UInt8) : joined dest src 0 = dest := by
  rw [joined, List.take_zero, List.append_nil, Nat.add_zero, ← Handles.take_cstr, List.take_append_drop]

theorem length_joined_left (dest : List UInt8) (hk : k ≤ strlen src) :
    (cstr dest ++ (cstr src).take k).length = strlen dest + k := by
  rw [List.length_append, List.length_take]
  exact congrArg (strlen dest + ·) (Nat.min_eq_left hk)

theorem length_joined (hk : k ≤ strlen src) (hroom : strlen dest + k ≤ dest.length) :
    (joined dest src k).length = dest.length := by
  rw [joined, List.length_append, length_joined_left dest hk, List.length_drop]
  omega

/-- One byte more. -/
theorem joined_set (hk : k < strlen src) (hroom : strlen dest + k < dest.length) :
    (joined dest src k).set (strlen dest + k) (cstr src)[k] = joined dest src (k + 1) := by
  have htake : (cstr src).take (k + 1) = (cstr src).take k ++ [(cstr src)[k]] := List.take_succ_eq_append_getElem hk
  have hlength := length_joined_left dest (Nat.le_of_lt hk)
  rw [joined, joined, htake, List.set_append_right _ _ (Nat.le_of_eq hlength), hlength, Nat.sub_self,
    List.drop_eq_getElem_cons hroom, List.set_cons_zero]
  simp only [List.append_assoc, List.singleton_append, Nat.add_assoc]

/-- What is copied: up to the NUL or the bound. -/
structure Copied (src : List UInt8) (within : Nat → Bool) (k : Nat) : Prop where
  le : k ≤ strlen src
  before (j : Nat) : j < k → within j = true
  stops : k = strlen src ∨ within k = false

/-- A turn of the copying loop. -/
theorem copyTurn_joined (hk : Copied src within k) (hroom : strlen dest + k ≤ dest.length) {j : Nat} (hj : j < k) :
    copying src within ⟨joined dest src j, strlen dest + j, j⟩ = some true ∧
      copyTurn src ⟨joined dest src j, strlen dest + j, j⟩ =
        some ⟨joined dest src (j + 1), strlen dest + j + 1, j + 1⟩ := by
  have hsub := Nat.lt_of_lt_of_le hj hk.le
  obtain ⟨hget, hne⟩ := getElem?_of_lt_strlen hsub
  have hcell : strlen dest + j < (joined dest src j).length := by
    rw [length_joined (Nat.le_of_lt hsub) (by omega)]
    omega
  constructor
  · rw [copying, hget, Option.bind_eq_bind, Option.bind_some, decide_eq_true hne, hk.before j hj]
    rfl
  · rw [copyTurn, hget]
    simp only [Option.bind_eq_bind, Option.bind_some]
    rw [writeCell_natCast hcell, joined_set hsub (by omega)]
    rfl

/-- The copying loop stops there. -/
theorem copying_stops (hk : Copied src within k) (hsrc : 0 ∈ src) (s : Copy) (hj : s.j = k) :
    copying src within s = some false := by
  rw [copying, hj]
  rcases hk.stops with hend | hbound
  · rw [hend, getElem?_strlen hsrc]
    rfl
  · obtain ⟨c, hc⟩ : ∃ c, src[k]? = some c := by
      rcases Nat.lt_or_eq_of_le hk.le with hlt | heq
      · exact ⟨_, (getElem?_of_lt_strlen hlt).1⟩
      · exact ⟨0, by rw [heq, getElem?_strlen hsrc]⟩
    rw [hc, Option.bind_eq_bind, Option.bind_some, hbound, Bool.and_false]
    rfl

theorem appendLoops_eq (hdest : 0 ∈ dest) (hsrc : 0 ∈ src) (hk : Copied src within k)
    (hroom : strlen dest + k ≤ dest.length) :
    appendLoops within dest src = some ⟨joined dest src k, strlen dest + k, k⟩ := by
  have hturn : ∀ s : Copy, s = ⟨joined dest src s.j, strlen dest + s.j, s.j⟩ ∧ s.j ≤ k →
      copying src within s = some false ∨ copying src within s = some true ∧
        ∃ s', copyTurn src s = some s' ∧ (s' = ⟨joined dest src s'.j, strlen dest + s'.j, s'.j⟩ ∧ s'.j ≤ k) ∧
          k - s'.j < k - s.j := by
    rintro s ⟨heq, hj⟩
    rcases Nat.lt_or_eq_of_le hj with hlt | hend
    · obtain ⟨hcond, hbody⟩ := copyTurn_joined hk hroom hlt
      rw [← heq] at hcond hbody
      exact .inr ⟨hcond, _, hbody, ⟨rfl, hlt⟩, by dsimp only; omega⟩
    · exact .inl (copying_stops hk hsrc s hend)
  have hfuel : k - 0 < src.length + 1 := by
    have hle : strlen src ≤ src.length := (List.takeWhile_prefix _).length_le
    have := hk.le
    omega
  obtain ⟨s, hloop, ⟨heq, hle⟩, hend⟩ := whileDo_ends (copying src within) (copyTurn src) _ (fun s => k - s.j) hturn
    (s := ⟨dest, strlen dest, 0⟩) ⟨by rw [joined_zero]; rfl, Nat.zero_le k⟩ hfuel
  have hj : s.j = k := by
    rcases Nat.lt_or_eq_of_le hle with hlt | hlast
    · obtain ⟨hcond, -⟩ := copyTurn_joined hk hroom hlt
      rw [← heq, hend] at hcond
      cases hcond
    · exact hlast
  rw [appendLoops, endOf_eq hdest, Option.bind_eq_bind, Option.bind_some, hloop, heq, hj]

/-! ## The NUL -/

/-- A result with a string. -/
def Holds (result : Option (List UInt8)) (s : List UInt8) : Prop :=
  ∃ block, result = some block ∧ 0 ∈ block ∧ cstr block = s

/-- The NUL is written behind the byte that follows the copied ones. -/
theorem holds_iff (dest : List UInt8) (hk : k ≤ strlen src) (hroom : strlen dest + k + 1 ≤ dest.length) :
    Holds (writeCell (joined dest src k) (strlen dest + k + 1 : Nat) 0) (cstr dest ++ (cstr src).take k) ↔
      strlen dest + k + 1 < dest.length ∧ dest[strlen dest + k]? = some 0 := by
  have hlength := length_joined hk (Nat.le_of_succ_le hroom)
  by_cases hlt : strlen dest + k + 1 < dest.length
  · have hnot : 0 ∉ cstr dest ++ (cstr src).take k := fun hmem => by
      rcases List.mem_append.mp hmem with hmem | hmem
      · exact not_mem_cstr hmem
      · exact not_mem_cstr (List.mem_of_mem_take hmem)
    have hbefore : strlen dest + k < dest.length := hroom
    have hblock : (joined dest src k).set (strlen dest + k + 1) 0 =
        cstr dest ++ (cstr src).take k ++ dest[strlen dest + k] :: 0 :: dest.drop (strlen dest + k + 2) := by
      have hleft := length_joined_left dest hk
      rw [joined, List.set_append_right _ _ (by omega), hleft, List.drop_eq_getElem_cons hbefore,
        List.drop_eq_getElem_cons hlt, Nat.add_sub_cancel_left]
      rfl
    have hzero : dest[strlen dest + k]? = some 0 ↔ dest[strlen dest + k] = 0 := by
      rw [List.getElem?_eq_getElem hbefore, Option.some.injEq]
    rw [writeCell_natCast (by rwa [hlength]), hblock, hzero]
    constructor
    · rintro ⟨block, hsome, -, hcstr⟩
      obtain rfl := Option.some.inj hsome
      refine ⟨hlt, ?_⟩
      by_contra hne
      -- the byte is a part of the string
      have hlonger : 0 ∉ cstr dest ++ (cstr src).take k ++ [dest[strlen dest + k]] := fun hmem => by
        rcases List.mem_append.mp hmem with hmem | hmem
        · exact hnot hmem
        · exact hne (List.mem_singleton.mp hmem).symm
      rw [List.append_cons, cstr_cons_zero hlonger] at hcstr
      have := congrArg List.length hcstr
      rw [List.length_append, List.length_singleton] at this
      omega
    · rintro ⟨-, hend⟩
      rw [hend]
      exact ⟨_, rfl, List.mem_append_right _ List.mem_cons_self, cstr_cons_zero hnot⟩
  · have hnone : writeCell (joined dest src k) (strlen dest + k + 1 : Nat) 0 = none :=
      if_neg fun h => hlt (by rw [← hlength]; exact Int.ofNat_lt.mp h.2)
    rw [hnone]
    constructor
    · rintro ⟨block, hsome, -⟩
      cases hsome
    · exact fun h => absurd h.1 hlt

/-- **`Strcat`** needs a spare byte, and a NUL in the place of the new one. -/
theorem strcat_iff (hdest : 0 ∈ dest) (hsrc : 0 ∈ src) (hroom : strlen dest + strlen src + 1 ≤ dest.length) :
    Holds (strcat dest src) (cstr dest ++ cstr src) ↔
      strlen dest + strlen src + 1 < dest.length ∧ dest[strlen dest + strlen src]? = some 0 := by
  have hcopied : Copied src (fun _ => true) (strlen src) := ⟨Nat.le_refl _, fun _ _ => rfl, .inl rfl⟩
  have hwhole : (cstr src).take (strlen src) = cstr src := List.take_length
  have hlaw := holds_iff dest (Nat.le_refl (strlen src)) hroom
  rw [hwhole] at hlaw
  rw [strcat, appendLoops_eq hdest hsrc hcopied (Nat.le_of_succ_le hroom)]
  exact hlaw

/-- **`Strncat`** as well. -/
theorem strncat_iff (hdest : 0 ∈ dest) (hsrc : 0 ∈ src) (n : Nat)
    (hroom : strlen dest + min n (strlen src) + 1 ≤ dest.length) :
    Holds (strncat dest src n) (cstr dest ++ (cstr src).take n) ↔
      strlen dest + min n (strlen src) + 1 < dest.length ∧ dest[strlen dest + min n (strlen src)]? = some 0 := by
  have hcopied : Copied src (fun j => decide (j < n)) (min n (strlen src)) := by
    refine ⟨Nat.min_le_right _ _, fun j hj => decide_eq_true (by omega), ?_⟩
    rcases Nat.le_total n (strlen src) with hle | hle
    · rw [Nat.min_eq_left hle]
      exact .inr (decide_eq_false (Nat.lt_irrefl n))
    · exact .inl (Nat.min_eq_right hle)
  have hwhole : (cstr src).take (min n (strlen src)) = (cstr src).take n := List.take_eq_take_min.symm
  have hlaw := holds_iff dest (Nat.min_le_right n (strlen src)) hroom
  rw [hwhole] at hlaw
  rw [strncat, appendLoops_eq hdest hsrc hcopied (Nat.le_of_succ_le hroom)]
  exact hlaw

/-- **A block without a spare byte** is overrun. -/
theorem cat_exact (dest src : List UInt8) (n : Nat) (hdest : 0 ∈ dest) (hsrc : 0 ∈ src) :
    (dest.length = strlen dest + strlen src + 1 → ¬ Holds (strcat dest src) (cstr dest ++ cstr src)) ∧
      (dest.length = strlen dest + min n (strlen src) + 1 →
        ¬ Holds (strncat dest src n) (cstr dest ++ (cstr src).take n)) := by
  constructor
  · intro hexact hholds
    have hspare := ((strcat_iff hdest hsrc (Nat.le_of_eq hexact.symm)).mp hholds).1
    omega
  · intro hexact hholds
    have hspare := ((strncat_iff hdest hsrc n (Nat.le_of_eq hexact.symm)).mp hholds).1
    omega

theorem cat_exact_ab :
    ([97, 0, 7].length = strlen [97, 0, 7] + strlen [98, 0] + 1 →
        ¬ Holds (strcat [97, 0, 7] [98, 0]) (cstr [97, 0, 7] ++ cstr [98, 0])) ∧
      ([97, 0, 7].length = strlen [97, 0, 7] + min 1 (strlen [98, 0]) + 1 →
        ¬ Holds (strncat [97, 0, 7] [98, 0] 1) (cstr [97, 0, 7] ++ (cstr [98, 0]).take 1)) :=
  cat_exact [97, 0, 7] [98, 0] 1 (by decide) (by decide)

/-- Three bytes for `"a"` and `"b"`. -/
theorem cat_ab : [97, 0, 7].length = strlen [97, 0, 7] + strlen [98, 0] + 1 ∧
    ¬ Holds (strcat [97, 0, 7] [98, 0]) [97, 98] ∧ ¬ Holds (strncat [97, 0, 7] [98, 0] 1) [97, 98] := by
  have hcat : strcat [97, 0, 7] [98, 0] = none := by decide
  have hncat : strncat [97, 0, 7] [98, 0] 1 = none := by decide
  rw [hcat, hncat]
  refine ⟨by decide, ?_, ?_⟩
  · rintro ⟨block, hblock, -⟩
    cases hblock
  · rintro ⟨block, hblock, -⟩
    cases hblock

/-- With a fourth byte the old one stays in the string. -/
example : strcat [97, 0, 7, 7] [98, 0] = some [97, 98, 7, 0] := by decide

end Workbench.Text
