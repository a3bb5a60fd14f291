import Workbench.Lib.Trim
import Workbench.Text.Strcat

/-!
# `Text.RemoveExtraWS` — spaces and tabs are removed in place

The string is in a block, `str` is the offset of its first byte, and `str_end` may come to be before the block. An
access outside of the block fails, and so does a `count` that an `int` does not hold.

## Main results
* `spaceTurn_eq` — a turn of `within_Space_remove` at a space or a tab;
* `spaceLoop_spec` — what the pass leaves, and when it is the collapsed string;
* `removeExtraWS_eq` — trimming, and the pass;
* `removeExtraWS_iff` — when the contract is kept.
-/

namespace Workbench.ExtraWS

open Handles (cstr strlen cstr_cons_zero exists_rest not_mem_cstr)
open Text (endOf endOf_eq)

/-! ## The functions -/

/-- A space or a tab. -/
def isWs (c : UInt8) : Bool := c = 32 || c = 9

/-- A block, and a pointer into it. -/
structure Cursor where
  block : List UInt8
  pos : Nat

def notNul (block : List UInt8) (pos : Nat) : Option Bool := block[pos]?.map fun c => decide (c ≠ 0)

/-- `count`, and `tmp_c` that runs along. -/
structure Count where
  tmp : Nat
  count : Nat

def counting (block : List UInt8) (s : Count) : Option Bool := block[s.tmp]?.map fun c => decide (c = 32)

def countTurn (s : Count) : Option Count :=
  if s.count < 2147483647 then some ⟨s.tmp + 1, s.count + 1⟩ else none

def countLoop (block : List UInt8) (tmp : Nat) : Option Count :=
  whileDo (counting block) countTurn (block.length + 1) ⟨tmp, 0⟩

def shifting (count : Nat) (s : Cursor) : Option Bool := notNul s.block (s.pos + count)

def shiftTurn (count : Nat) (s : Cursor) : Option Cursor := do
  let c ← s.block[s.pos + count]?
  let block ← writeCell s.block s.pos c
  return ⟨block, s.pos + 1⟩

def shiftLoop (count : Nat) (s : Cursor) : Option Cursor :=
  whileDo (shifting count) (shiftTurn count) (s.block.length + 1) s

/-- The condition of the other two loops. -/
def inText (s : Cursor) : Option Bool := notNul s.block s.pos

def clearTurn (s : Cursor) : Option Cursor := do
  let block ← writeCell s.block s.pos 0
  return ⟨block, s.pos + 1⟩

def clearLoop (s : Cursor) : Option Cursor :=
  whileDo inText clearTurn (s.block.length + 1) s

/-- A turn of `within_Space_remove`. -/
def spaceTurn (s : Cursor) : Option Cursor := do
  let c ← s.block[s.pos]?
  if isWs c then
    let counted ← countLoop s.block (s.pos + 1)
    let shifted ← shiftLoop counted.count ⟨s.block, s.pos + 1⟩
    let cleared ← clearLoop shifted
    -- `++str` twice
    return ⟨cleared.block, s.pos + 2⟩
  else
    return ⟨s.block, s.pos + 1⟩

def spaceLoop (s : Cursor) : Option Cursor :=
  whileDo inText spaceTurn (s.block.length + 1) s

/-- The result is the pointer that was given. -/
def withinSpaceRemove (block : List UInt8) (str : Nat) : Option (List UInt8) := do
  let s ← spaceLoop ⟨block, str⟩
  return s.block

def skipping (block : List UInt8) (strEnd : Int) (str : Nat) : Option Bool :=
  if str < strEnd then block[str]?.map isWs else some false

def skipLoop (block : List UInt8) (strEnd : Int) (str : Nat) : Option Nat :=
  whileDo (skipping block strEnd) (fun str => some (str + 1)) (block.length + 1) str

def trimming (block : List UInt8) (strEnd : Int) : Option Bool := (readCell block strEnd).map isWs

def trimLoop (block : List UInt8) (strEnd : Int) : Option Int :=
  whileDo (trimming block) (fun strEnd => some (strEnd - 1)) (block.length + 1) strEnd

/-- The block, and the result, which may be `NULL`. -/
def removeExtraWS (block : List UInt8) (str : Nat) : Option (List UInt8 × Option Nat) := do
  -- `Strlen` has the loop of `Strcat`
  let length ← endOf (block.drop str)
  let strEnd : Int := str + length - 1
  let str ← skipLoop block strEnd str
  let strEnd ← trimLoop block strEnd
  if strEnd ≤ str then
    return (block, none)
  else
    let block ← writeCell block (strEnd + 1) 0
    let block ← withinSpaceRemove block str
    return (block, some str)

variable {block before rest rest' text lead trail : List UInt8} {c d : UInt8} {fuel n : Nat}

/-! ## Cells

The block is cut at the pointer: `before` is what is to its left. -/

theorem getElem?_cut (before rest : List UInt8) (c : UInt8) : (before ++ c :: rest)[before.length]? = some c := by
  rw [List.getElem?_append_right (Nat.le_refl _), Nat.sub_self]
  rfl

theorem notNul_cut (before rest : List UInt8) (c : UInt8) :
    notNul (before ++ c :: rest) before.length = some (decide (c ≠ 0)) := by
  rw [notNul, getElem?_cut]
  rfl

theorem writeCell_cut (before rest : List UInt8) (c d : UInt8) :
    writeCell (before ++ c :: rest) before.length d = some (before ++ d :: rest) := by
  have hlt : before.length < (before ++ c :: rest).length := by
    rw [List.length_append, List.length_cons]
    omega
  rw [writeCell_natCast hlt, List.set_append_right _ _ (Nat.le_refl _), Nat.sub_self]
  rfl

/-! ## A turn at a space or a tab -/

theorem countTurns_eq (before rest : List UInt8) (hd : d ≠ 32) (hfuel : n < fuel) {count : Nat}
    (hcount : count ≤ 2147483647) :
    whileDo (counting (before ++ (List.replicate n 32 ++ d :: rest))) countTurn fuel ⟨before.length, count⟩ =
      if count + n ≤ 2147483647 then some ⟨before.length + n, count + n⟩ else none := by
  induction n generalizing before fuel count with
  | zero =>
      obtain ⟨fuel, rfl⟩ := Nat.exists_eq_add_of_lt hfuel
      rw [whileDo_false, Nat.add_zero, Nat.add_zero, if_pos hcount]
      · rw [counting, List.replicate_zero, List.nil_append, getElem?_cut, Option.map_some, decide_eq_false hd]
  | succ n ih =>
      obtain ⟨fuel, rfl⟩ : ∃ k, fuel = k + 1 := ⟨fuel - 1, by omega⟩
      have hcond : counting (before ++ (List.replicate (n + 1) 32 ++ d :: rest)) ⟨before.length, count⟩ =
          some true := by
        rw [counting, List.replicate_succ, List.cons_append, getElem?_cut]
        rfl
      by_cases hmore : count < 2147483647
      · have hcut : before ++ (List.replicate (n + 1) 32 ++ d :: rest) =
            before ++ [32] ++ (List.replicate n 32 ++ d :: rest) := by
          rw [List.replicate_succ, List.cons_append, List.append_cons]
        have hnext := ih (before ++ [32]) (Nat.lt_of_succ_lt_succ hfuel) (show count + 1 ≤ 2147483647 from hmore)
        rw [List.length_append, List.length_singleton, ← hcut] at hnext
        rw [whileDo_true hcond (if_pos hmore), hnext, Nat.add_assoc count, Nat.add_assoc before.length,
          Nat.add_comm 1 n]
      · rw [if_neg (by omega), whileDo, hcond]
        show (countTurn _).bind _ = none
        rw [countTurn, if_neg hmore]
        rfl

theorem countLoop_eq (before rest : List UInt8) (n : Nat) (hd : d ≠ 32) :
    countLoop (before ++ (List.replicate n 32 ++ d :: rest)) before.length =
      if n ≤ 2147483647 then some ⟨before.length + n, n⟩ else none := by
  have hfuel : n < (before ++ (List.replicate n 32 ++ d :: rest)).length + 1 := by
    rw [List.length_append, List.length_append, List.length_replicate]
    omega
  have hloop := countTurns_eq before rest hd hfuel (Nat.zero_le 2147483647)
  rwa [Nat.zero_add] at hloop

/-- The text is moved to the left over `count` cells. As many bytes of the old text are left behind it. -/
theorem shiftTurns_eq (before gap rest : List UInt8) (hgap : 0 ∉ gap) (htext : 0 ∉ text) (hfuel : text.length < fuel) :
    ∃ old : List UInt8, old.length = gap.length ∧ 0 ∉ old ∧
      whileDo (shifting gap.length) (shiftTurn gap.length) fuel
          ⟨before ++ (gap ++ (text ++ 0 :: rest)), before.length⟩ =
        some ⟨before ++ (text ++ (old ++ 0 :: rest)), before.length + text.length⟩ := by
  obtain ⟨fuel, rfl⟩ : ∃ k, fuel = k + 1 := ⟨fuel - 1, by omega⟩
  induction text generalizing before gap fuel with
  | nil =>
      refine ⟨gap, rfl, hgap, whileDo_false ?_⟩
      have hend := notNul_cut (before ++ gap) rest 0
      rwa [List.length_append, List.append_assoc] at hend
  | cons c text ih =>
      rw [List.mem_cons, not_or] at htext
      obtain ⟨fuel, rfl⟩ : ∃ k, fuel = k + 1 := ⟨fuel - 1, by rw [List.length_cons] at hfuel; omega⟩
      -- the cell that is written, and the gap behind it
      obtain ⟨d, gap', hgap'⟩ : ∃ d gap', gap ++ [c] = d :: gap' := List.exists_cons_of_ne_nil (by simp)
      have hlength : gap'.length = gap.length := by
        have := congrArg List.length hgap'
        rw [List.length_append, List.length_singleton, List.length_cons] at this
        exact (Nat.succ.inj this).symm
      have hnot : 0 ∉ gap' := fun hmem => by
        have hmem' : 0 ∈ gap ++ [c] := hgap' ▸ List.mem_cons_of_mem d hmem
        rcases List.mem_append.mp hmem' with hmem' | hmem'
        · exact hgap hmem'
        · exact htext.1 (List.mem_singleton.mp hmem')
      have hblock : before ++ (gap ++ (c :: text ++ 0 :: rest)) = before ++ d :: (gap' ++ (text ++ 0 :: rest)) := by
        rw [List.cons_append, List.append_cons gap, hgap', List.cons_append]
      have hread : (before ++ (gap ++ (c :: text ++ 0 :: rest)))[before.length + gap.length]? = some c := by
        have hcell := getElem?_cut (before ++ gap) (text ++ 0 :: rest) c
        rwa [List.length_append, List.append_assoc] at hcell
      have hbody : shiftTurn gap.length ⟨before ++ (gap ++ (c :: text ++ 0 :: rest)), before.length⟩ =
          some ⟨before ++ [c] ++ (gap' ++ (text ++ 0 :: rest)), (before ++ [c]).length⟩ := by
        rw [shiftTurn]
        simp only [Option.bind_eq_bind]
        rw [hread, Option.bind_some, hblock, writeCell_cut, List.append_cons before, List.length_append]
        rfl
      obtain ⟨old, hold, hzero, hloop⟩ := ih (before ++ [c]) gap' hnot htext.2 fuel (Nat.lt_of_succ_lt_succ hfuel)
      refine ⟨old, hold.trans hlength, hzero, ?_⟩
      have hcond : shifting gap.length ⟨before ++ (gap ++ (c :: text ++ 0 :: rest)), before.length⟩ = some true := by
        rw [shifting, notNul, hread, Option.map_some, decide_eq_true (Ne.symm htext.1)]
      rw [whileDo_true hcond hbody, ← hlength, hloop, List.length_append, List.length_singleton, Nat.add_assoc,
        Nat.add_comm 1, List.append_assoc]
      rfl

theorem clearTurns_eq (before rest : List UInt8) {old : List UInt8} (hold : 0 ∉ old) (hfuel : old.length < fuel) :
    whileDo inText clearTurn fuel ⟨before ++ (old ++ 0 :: rest), before.length⟩ =
      some ⟨before ++ (List.replicate old.length 0 ++ 0 :: rest), before.length + old.length⟩ := by
  obtain ⟨fuel, rfl⟩ : ∃ k, fuel = k + 1 := ⟨fuel - 1, by omega⟩
  induction old generalizing before fuel with
  | nil => exact whileDo_false (notNul_cut before rest 0)
  | cons c old ih =>
      rw [List.mem_cons, not_or] at hold
      obtain ⟨fuel, rfl⟩ : ∃ k, fuel = k + 1 := ⟨fuel - 1, by rw [List.length_cons] at hfuel; omega⟩
      have hcond : inText ⟨before ++ c :: (old ++ 0 :: rest), before.length⟩ = some true := by
        rw [inText, notNul_cut, decide_eq_true (Ne.symm hold.1)]
      have hbody : clearTurn ⟨before ++ c :: (old ++ 0 :: rest), before.length⟩ =
          some ⟨before ++ [0] ++ (old ++ 0 :: rest), (before ++ [0]).length⟩ := by
        rw [clearTurn]
        simp only [Option.bind_eq_bind]
        rw [writeCell_cut, List.append_cons before, List.length_append]
        rfl
      have hloop := ih (before ++ [0]) hold.2 fuel (Nat.lt_of_succ_lt_succ hfuel)
      rw [List.cons_append, whileDo_true hcond hbody, hloop, List.length_append, List.length_singleton, Nat.add_assoc,
        Nat.add_comm 1, List.append_assoc]
      rfl

theorem shiftLoop_eq (before gap rest : List UInt8) (hgap : 0 ∉ gap) (htext : 0 ∉ text) :
    ∃ old : List UInt8, old.length = gap.length ∧ 0 ∉ old ∧
      shiftLoop gap.length ⟨before ++ (gap ++ (text ++ 0 :: rest)), before.length⟩ =
        some ⟨before ++ (text ++ (old ++ 0 :: rest)), before.length + text.length⟩ := by
  refine shiftTurns_eq before gap rest hgap htext ?_
  simp only [List.length_append]
  omega

theorem clearLoop_eq (before rest : List UInt8) {old : List UInt8} (hold : 0 ∉ old) :
    clearLoop ⟨before ++ (old ++ 0 :: rest), before.length⟩ =
      some ⟨before ++ (List.replicate old.length 0 ++ 0 :: rest), before.length + old.length⟩ := by
  refine clearTurns_eq before rest hold ?_
  simp only [List.length_append]
  omega

/-- **A turn at a space or a tab** takes out the spaces behind it and goes past the byte that follows them. -/
theorem spaceTurn_eq (before rest : List UInt8) (n : Nat) (hc : isWs c = true) (hd : d ≠ 32) (htext : 0 ∉ d :: text) :
    spaceTurn ⟨before ++ c :: (List.replicate n 32 ++ (d :: text ++ 0 :: rest)), before.length⟩ =
      if n ≤ 2147483647 then
        some ⟨before ++ c :: (d :: text ++ (List.replicate n 0 ++ 0 :: rest)), before.length + 2⟩
      else none := by
  have hcut : before ++ c :: (List.replicate n 32 ++ (d :: text ++ 0 :: rest)) =
      before ++ [c] ++ (List.replicate n 32 ++ (d :: text ++ 0 :: rest)) := List.append_cons ..
  have hpos : before.length + 1 = (before ++ [c]).length := by rw [List.length_append, List.length_singleton]
  have hcount : countLoop (before ++ [c] ++ (List.replicate n 32 ++ (d :: text ++ 0 :: rest))) (before ++ [c]).length =
      if n ≤ 2147483647 then some ⟨(before ++ [c]).length + n, n⟩ else none :=
    countLoop_eq (before ++ [c]) (text ++ 0 :: rest) n hd
  rw [spaceTurn]
  simp only [Option.bind_eq_bind]
  rw [getElem?_cut, Option.bind_some, if_pos hc, hcut, hpos, hcount]
  by_cases hn : n ≤ 2147483647
  · have hgap : 0 ∉ List.replicate n (32 : UInt8) := fun hmem => by
      cases (List.mem_replicate.mp hmem).2
    obtain ⟨old, hlength, hold, hshift⟩ := shiftLoop_eq (before ++ [c]) (List.replicate n 32) rest hgap htext
    rw [List.length_replicate] at hlength hshift
    have hclear := clearLoop_eq (before ++ [c] ++ (d :: text)) rest hold
    rw [List.append_assoc (before ++ [c]), List.append_assoc (before ++ [c]),
      List.length_append] at hclear
    rw [if_pos hn, if_pos hn, Option.bind_some, hshift, Option.bind_some, hclear, hlength, Option.bind_some,
      List.append_assoc]
    rfl
  · rw [if_neg hn, if_neg hn]
    rfl

/-! ## The strings that are collapsed -/

/-- Directly behind a space or a tab there is no tab, and no more spaces than an `int` counts. -/
def Collapsible (text : List UInt8) : Prop :=
  ∀ c after, c :: after <:+ text → isWs c = true →
    after.head? ≠ some 9 ∧ (after.takeWhile (· = 32)).length ≤ 2147483647

theorem collapsible_nil : Collapsible [] := fun _ _ hsuffix => by
  cases List.suffix_nil.mp hsuffix

theorem collapsible_cons : Collapsible (c :: text) ↔
    (isWs c = true → text.head? ≠ some 9 ∧ (text.takeWhile (· = 32)).length ≤ 2147483647) ∧ Collapsible text := by
  constructor
  · intro h
    exact ⟨h c text List.suffix_rfl, fun x after hsuffix => h x after (hsuffix.trans (List.suffix_cons c text))⟩
  · rintro ⟨hc, htext⟩ x after hsuffix hx
    rcases List.suffix_cons_iff.mp hsuffix with heq | hsuffix
    · obtain ⟨rfl, rfl⟩ := List.cons.inj heq
      exact hc hx
    · exact htext x after hsuffix hx

theorem collapsible_solid (hc : isWs c = false) : Collapsible (c :: text) ↔ Collapsible text := by
  rw [collapsible_cons, hc]
  simp

theorem isWs_iff : isWs c = true ↔ c = 32 ∨ c = 9 := by
  rw [isWs, Bool.or_eq_true, decide_eq_true_eq, decide_eq_true_eq]

theorem isWs_eq_false (hspace : c ≠ 32) (htab : c ≠ 9) : isWs c = false :=
  Bool.eq_false_iff.mpr fun h => (isWs_iff.mp h).elim hspace htab

/-- The byte that follows the spaces matters. -/
theorem collapsible_run (n : Nat) (hc : isWs c = true) (hd : d ≠ 32) :
    Collapsible (c :: (List.replicate n 32 ++ d :: text)) ↔ n ≤ 2147483647 ∧ d ≠ 9 ∧ Collapsible text := by
  induction n generalizing c with
  | zero =>
      have hspaces : (d :: text).takeWhile (· = 32) = [] := List.takeWhile_cons_of_neg (by simpa using hd)
      rw [List.replicate_zero, List.nil_append, collapsible_cons, hspaces]
      by_cases htab : d = 9
      · rw [htab]
        simp [hc]
      · rw [collapsible_solid (isWs_eq_false hd htab)]
        simp [hc, htab]
  | succ n ih =>
      have hall : ∀ x ∈ List.replicate (n + 1) (32 : UInt8), decide (x = 32) = true := fun x hx =>
        decide_eq_true (List.mem_replicate.mp hx).2
      have hspaces : ((List.replicate (n + 1) 32 ++ d :: text).takeWhile (· = 32)).length = n + 1 := by
        rw [List.takeWhile_append_of_pos hall, List.takeWhile_cons_of_neg (by simpa using hd), List.append_nil,
          List.length_replicate]
      rw [collapsible_cons, hspaces, List.replicate_succ, List.cons_append, ih (c := 32) rfl]
      simp only [hc, List.head?_cons, true_imp_iff]
      constructor
      · exact fun h => ⟨h.1.2, h.2.2⟩
      · exact fun h => ⟨⟨by decide, h.1⟩, Nat.le_of_succ_le h.1, h.2⟩

/-- A string that is collapsed is left as it is. -/
theorem collapsible_of_isChain (h : text.IsChain (Apart isWs)) : Collapsible text := by
  induction text with
  | nil => exact collapsible_nil
  | cons c text ih =>
      refine collapsible_cons.mpr ⟨fun hc => ?_, ih h.tail⟩
      cases text with
      | nil => simp
      | cons d text =>
          have hd : ¬ isWs d = true := fun hd => (List.isChain_cons_cons.mp h).1 ⟨hc, hd⟩
          have hspace : d ≠ 32 := fun heq => hd (isWs_iff.mpr (.inl heq))
          have htab : d ≠ 9 := fun heq => hd (isWs_iff.mpr (.inr heq))
          rw [List.takeWhile_cons_of_neg (by simpa using hspace)]
          simp [htab]

/-! ## The pass -/

/-- The last byte is no space and no tab. -/
def EndsSolid (text : List UInt8) : Prop := ∀ c, text.getLast? = some c → isWs c = false

theorem EndsSolid.of_suffix (h : EndsSolid text) (hrest : rest <:+ text) : EndsSolid rest := by
  obtain ⟨before, rfl⟩ := hrest
  intro c hc
  exact h c (by rw [List.getLast?_append, hc]; rfl)

theorem endsSolid_concat (hd : isWs d = false) (start : List UInt8) : EndsSolid (start ++ [d]) := fun c hc => by
  rw [List.getLast?_concat] at hc
  obtain rfl := Option.some.inj hc
  exact hd

/-- Spaces behind a space or a tab are followed by a byte. -/
theorem exists_run {tail : List UInt8} (hc : isWs c = true) (hends : EndsSolid (c :: tail)) :
    ∃ n d text, tail = List.replicate n 32 ++ d :: text ∧ d ≠ 32 := by
  have hsplit : tail.takeWhile (· = 32) ++ tail.dropWhile (· = 32) = tail := List.takeWhile_append_dropWhile
  have hspaces : ∀ x ∈ tail.takeWhile (· = 32), x = 32 := fun x hx => by simpa using List.mem_takeWhile_imp hx
  cases hrest : tail.dropWhile (· = 32) with
  | nil =>
      -- all of them would be spaces and tabs, with the last one
      rw [hrest, List.append_nil] at hsplit
      have hlast := hends _ (List.getLast?_eq_some_getLast (List.cons_ne_nil c tail))
      have hws : isWs ((c :: tail).getLast (List.cons_ne_nil c tail)) = true := by
        rcases List.mem_cons.mp (List.getLast_mem (List.cons_ne_nil c tail)) with heq | hmem
        · rw [heq, hc]
        · exact isWs_iff.mpr (.inl (hspaces _ (hsplit.symm ▸ hmem)))
      rw [hlast] at hws
      cases hws
  | cons d text =>
      have hd : d ≠ 32 := by
        have hhead := List.head?_dropWhile_not (· = 32) tail
        rw [hrest] at hhead
        simpa using hhead
      rw [hrest, List.eq_replicate_length.mpr hspaces] at hsplit
      exact ⟨_, d, text, hsplit.symm, hd⟩

/-- The bytes of a string, where the spaces behind a space or a tab come with it and with the byte that follows them. -/
theorem run_induction {motive : List UInt8 → Prop} (nil : motive [])
    (solid : ∀ c text, isWs c = false → motive text → motive (c :: text))
    (run : ∀ c n d text, isWs c = true → d ≠ 32 → motive text → motive (c :: (List.replicate n 32 ++ d :: text)))
    (text : List UInt8) (hends : EndsSolid text) : motive text := by
  induction hlength : text.length using Nat.strong_induction_on generalizing text with
  | _ length ih =>
      subst hlength
      cases text with
      | nil => exact nil
      | cons c tail =>
          cases hc : isWs c with
          | false =>
              have hends' := hends.of_suffix (List.suffix_cons c tail)
              exact solid c tail hc (ih _ (Nat.lt_succ_self _) tail hends' rfl)
          | true =>
              obtain ⟨n, d, text, rfl, hd⟩ := exists_run hc hends
              have hsuffix : text <:+ c :: (List.replicate n 32 ++ d :: text) := by
                rw [List.append_cons, ← List.cons_append]
                exact List.suffix_append _ text
              have hshorter : text.length < (c :: (List.replicate n 32 ++ d :: text)).length := by
                rw [List.length_cons, List.length_append, List.length_cons]
                omega
              exact run c n d text hc hd (ih _ hshorter text (hends.of_suffix hsuffix) rfl)

/-- What the pass leaves of a string. -/
structure Pass (text : List UInt8) (left : Option (List UInt8)) : Prop where
  loop (before rest : List UInt8) (fuel : Nat) : text.length < fuel →
    whileDo inText spaceTurn fuel ⟨before ++ (text ++ 0 :: rest), before.length⟩ = left.map fun out =>
      ⟨before ++ (out ++ 0 :: (List.replicate (text.length - out.length) 0 ++ rest)), before.length + out.length⟩
  le (out : List UInt8) : left = some out → out.length ≤ text.length
  zero (out : List UInt8) : left = some out → 0 ∉ out
  collapses : left = some (collapsed isWs text) ↔ Collapsible text

theorem Pass.nil : Pass [] (some []) where
  loop before rest fuel hfuel := by
    obtain ⟨fuel, rfl⟩ : ∃ k, fuel = k + 1 := ⟨fuel - 1, by rw [List.length_nil] at hfuel; omega⟩
    exact whileDo_false (notNul_cut before rest 0)
  le out hout := by
    obtain rfl := Option.some.inj hout
    exact Nat.le_refl _
  zero out hout := by
    obtain rfl := Option.some.inj hout
    exact List.not_mem_nil
  collapses := iff_of_true rfl collapsible_nil

theorem inText_cut (before rest : List UInt8) (hc : c ≠ 0) :
    inText ⟨before ++ c :: rest, before.length⟩ = some true := by
  rw [inText, notNul_cut, decide_eq_true hc]

theorem Pass.solid {left : Option (List UInt8)} (h : Pass text left) (hc : isWs c = false) (hzero : c ≠ 0) :
    Pass (c :: text) (left.map (c :: ·)) where
  loop before rest fuel hfuel := by
    obtain ⟨fuel, rfl⟩ : ∃ k, fuel = k + 1 := ⟨fuel - 1, by rw [List.length_cons] at hfuel; omega⟩
    have hbody : spaceTurn ⟨before ++ c :: (text ++ 0 :: rest), before.length⟩ =
        some ⟨before ++ [c] ++ (text ++ 0 :: rest), (before ++ [c]).length⟩ := by
      rw [spaceTurn]
      simp only [Option.bind_eq_bind]
      rw [getElem?_cut, Option.bind_some, hc, List.append_cons, List.length_append]
      rfl
    rw [List.cons_append, whileDo_true (inText_cut before _ hzero) hbody,
      h.loop (before ++ [c]) rest fuel (Nat.lt_of_succ_lt_succ hfuel)]
    cases left with
    | none => rfl
    | some out =>
        simp only [Option.map_some, List.append_assoc, List.nil_append, List.length_append, List.length_cons,
          List.length_nil, List.cons_append, Nat.add_sub_add_right, Nat.add_assoc, Nat.add_comm 1, Nat.zero_add]
  le out hout := by
    obtain ⟨out, hleft, rfl⟩ := Option.map_eq_some_iff.mp hout
    exact Nat.succ_le_succ (h.le out hleft)
  zero out hout := by
    obtain ⟨out, hleft, rfl⟩ := Option.map_eq_some_iff.mp hout
    rw [List.mem_cons, not_or]
    exact ⟨Ne.symm hzero, h.zero out hleft⟩
  collapses := by
    rw [collapsed_solid hc, collapsible_solid hc, ← h.collapses, ← Option.map_some]
    exact (Option.map_injective (List.cons_injective)).eq_iff

theorem ne_zero_of_isWs (hc : isWs c = true) : c ≠ 0 := by
  rintro rfl
  cases hc

/-- The turn, and the loop on what follows. -/
theorem Pass.run_loop {left : Option (List UInt8)} (h : Pass text left) (hc : isWs c = true) (hd : d ≠ 32)
    (hzero : 0 ∉ d :: text) (hn : n ≤ 2147483647) (before rest : List UInt8)
    (hfuel : (c :: (List.replicate n 32 ++ d :: text)).length < fuel + 1) :
    whileDo inText spaceTurn (fuel + 1)
        ⟨before ++ c :: (List.replicate n 32 ++ (d :: text ++ 0 :: rest)), before.length⟩ =
      (left.map fun out => c :: d :: out).map fun out =>
        ⟨before ++ (out ++ 0 ::
            (List.replicate ((c :: (List.replicate n 32 ++ d :: text)).length - out.length) 0 ++ rest)),
          before.length + out.length⟩ := by
  have hturn := spaceTurn_eq before rest n hc hd hzero
  have hzeros : List.replicate n (0 : UInt8) ++ 0 :: rest = 0 :: (List.replicate n 0 ++ rest) := by
    rw [List.append_cons, ← List.replicate_succ', List.replicate_succ, List.cons_append]
  have hbody : spaceTurn ⟨before ++ c :: (List.replicate n 32 ++ (d :: text ++ 0 :: rest)), before.length⟩ =
      some ⟨before ++ [c, d] ++ (text ++ 0 :: (List.replicate n 0 ++ rest)), (before ++ [c, d]).length⟩ := by
    rw [hturn, if_pos hn, hzeros, List.append_assoc, List.length_append]
    rfl
  have hturns : text.length < fuel := by
    simp only [List.length_cons, List.length_append] at hfuel
    omega
  rw [whileDo_true (inText_cut before _ (ne_zero_of_isWs hc)) hbody, h.loop _ _ fuel hturns]
  cases left with
  | none => rfl
  | some out =>
      have hle := h.le out rfl
      have hcells : (c :: (List.replicate n 32 ++ d :: text)).length - (c :: d :: out).length =
          text.length - out.length + n := by
        simp only [List.length_cons, List.length_append, List.length_replicate]
        omega
      have hpos : (before ++ [c, d]).length + out.length = before.length + (c :: d :: out).length := by
        simp only [List.length_append, List.length_cons, List.length_nil]
        omega
      rw [Option.map_some, Option.map_some, Option.map_some, hcells, hpos, ← List.replicate_append_replicate,
        List.append_assoc before, List.append_assoc (List.replicate _ 0)]
      rfl

/-- The run is collapsed if it has no tab. -/
theorem Pass.run_collapses {left : Option (List UInt8)} (h : Pass text left) (n : Nat) (hc : isWs c = true)
    (hd : d ≠ 32) : left.map (fun out => c :: d :: out) =
      some (collapsed isWs (c :: (List.replicate n 32 ++ d :: text))) ↔ d ≠ 9 ∧ Collapsible text := by
  by_cases htab : d = 9
  · subst htab
    -- the tab is left, and a collapsed string has none there
    refine iff_of_false (fun hleft => ?_) fun h => h.1 rfl
    obtain ⟨out, -, hout⟩ := Option.map_eq_some_iff.mp hleft
    have hchain := isChain_collapsed isWs (c :: (List.replicate n 32 ++ 9 :: text))
    rw [← hout] at hchain
    exact (List.isChain_cons_cons.mp hchain).1 ⟨hc, rfl⟩
  · have hall : ∀ x ∈ List.replicate n (32 : UInt8), isWs x = true := fun x hx =>
      isWs_iff.mpr (.inl (List.mem_replicate.mp hx).2)
    rw [collapsed_run hc hall (isWs_eq_false hd htab), ← h.collapses]
    simp [htab]

theorem Pass.run {left : Option (List UInt8)} (h : Pass text left) (n : Nat) (hc : isWs c = true) (hd : d ≠ 32)
    (hzero : 0 ∉ d :: text) :
    Pass (c :: (List.replicate n 32 ++ d :: text))
      (if n ≤ 2147483647 then left.map (fun out => c :: d :: out) else none) where
  loop before rest fuel hfuel := by
    obtain ⟨fuel, rfl⟩ : ∃ k, fuel = k + 1 := ⟨fuel - 1, by rw [List.length_cons] at hfuel; omega⟩
    have hblock : before ++ (c :: (List.replicate n 32 ++ d :: text) ++ 0 :: rest) =
        before ++ c :: (List.replicate n 32 ++ (d :: text ++ 0 :: rest)) := by
      rw [List.cons_append, List.append_assoc]
    rw [hblock]
    by_cases hn : n ≤ 2147483647
    · rw [if_pos hn]
      exact h.run_loop hc hd hzero hn before rest hfuel
    · -- `count` overflows
      have hturn := spaceTurn_eq before rest n hc hd hzero
      rw [if_neg hn] at hturn
      rw [if_neg hn, whileDo, inText_cut before _ (ne_zero_of_isWs hc)]
      show (spaceTurn _).bind _ = none
      rw [hturn]
      rfl
  le out hout := by
    split at hout
    · obtain ⟨out, hleft, rfl⟩ := Option.map_eq_some_iff.mp hout
      have := h.le out hleft
      simp only [List.length_cons, List.length_append, List.length_replicate]
      omega
    · cases hout
  zero out hout := by
    split at hout
    · obtain ⟨out, hleft, rfl⟩ := Option.map_eq_some_iff.mp hout
      rw [List.mem_cons, not_or] at hzero
      simp only [List.mem_cons, not_or]
      exact ⟨Ne.symm (ne_zero_of_isWs hc), hzero.1, h.zero out hleft⟩
    · cases hout
  collapses := by
    rw [collapsible_run n hc hd]
    by_cases hn : n ≤ 2147483647
    · rw [if_pos hn, h.run_collapses n hc hd]
      exact ⟨fun h => ⟨hn, h⟩, fun h => h.2⟩
    · rw [if_neg hn]
      refine iff_of_false (fun hleft => ?_) fun h => hn h.1
      cases hleft

/-- **The pass** leaves the collapsed string where the string is collapsible. -/
theorem exists_pass (hends : EndsSolid text) (hzero : 0 ∉ text) : ∃ left, Pass text left := by
  refine run_induction (motive := fun text => 0 ∉ text → ∃ left, Pass text left) ?nil ?solid ?run text hends hzero
  case nil => exact fun _ => ⟨_, Pass.nil⟩
  case solid =>
    intro c text hc ih hzero
    rw [List.mem_cons, not_or] at hzero
    obtain ⟨left, hleft⟩ := ih hzero.2
    exact ⟨_, hleft.solid hc (Ne.symm hzero.1)⟩
  case run =>
    intro c n d text hc hd ih hzero
    have htext : 0 ∉ d :: text := fun hmem => hzero (List.mem_cons_of_mem c (List.mem_append_right _ hmem))
    obtain ⟨left, hleft⟩ := ih fun hmem => htext (List.mem_cons_of_mem d hmem)
    exact ⟨_, hleft.run n hc hd htext⟩

/-! ## Trimming -/

theorem skipTurns_eq (before rest : List UInt8) {strEnd : Int} (hlead : ∀ x ∈ lead, isWs x = true) (hc : isWs c = false)
    (hend : (before.length + lead.length : Nat) ≤ strEnd) (hfuel : lead.length < fuel) :
    whileDo (skipping (before ++ (lead ++ c :: rest)) strEnd) (fun str => some (str + 1)) fuel before.length =
      some (before.length + lead.length) := by
  obtain ⟨fuel, rfl⟩ : ∃ k, fuel = k + 1 := ⟨fuel - 1, by omega⟩
  induction lead generalizing before fuel with
  | nil =>
      refine whileDo_false ?_
      rw [skipping, List.nil_append, getElem?_cut, Option.map_some, hc, ite_self]
  | cons x lead ih =>
      obtain ⟨fuel, rfl⟩ : ∃ k, fuel = k + 1 := ⟨fuel - 1, by rw [List.length_cons] at hfuel; omega⟩
      rw [List.length_cons] at hend hfuel
      have hcond : skipping (before ++ (x :: lead ++ c :: rest)) strEnd before.length = some true := by
        rw [skipping, if_pos (by omega), List.cons_append, getElem?_cut, Option.map_some, hlead x List.mem_cons_self]
      have hcut : before ++ (x :: lead ++ c :: rest) = before ++ [x] ++ (lead ++ c :: rest) := by
        rw [List.cons_append, List.append_cons]
      have hnext := ih (before ++ [x]) (fun y hy => hlead y (List.mem_cons_of_mem x hy))
        (by rw [List.length_append, List.length_singleton]; omega) fuel (Nat.lt_of_succ_lt_succ hfuel)
      rw [← hcut, List.length_append, List.length_singleton] at hnext
      refine (whileDo_true hcond (by rfl)).trans (hnext.trans ?_)
      rw [List.length_cons, Nat.add_assoc, Nat.add_comm 1]

/-- From the end of the string to the last byte that is no space and no tab. -/
theorem trimTurns_eq (before rest : List UInt8) (htrail : ∀ x ∈ trail, isWs x = true) (hc : isWs c = false)
    (hfuel : trail.length < fuel) :
    whileDo (trimming (before ++ c :: (trail ++ rest))) (fun strEnd => some (strEnd - 1)) fuel
      ((before.length + trail.length : Nat) : Int) = some (before.length : Int) := by
  obtain ⟨fuel, rfl⟩ : ∃ k, fuel = k + 1 := ⟨fuel - 1, by omega⟩
  induction trail using List.reverseRecOn generalizing rest fuel with
  | nil =>
      refine whileDo_false ?_
      rw [trimming, readCell_natCast, List.length_nil, Nat.add_zero, getElem?_cut, Option.map_some, hc]
  | append_singleton trail x ih =>
      rw [List.length_append, List.length_singleton] at hfuel ⊢
      obtain ⟨fuel, rfl⟩ : ∃ k, fuel = k + 1 := ⟨fuel - 1, by omega⟩
      have hcut : before ++ c :: (trail ++ [x] ++ rest) = before ++ c :: (trail ++ x :: rest) := by
        rw [List.append_assoc, List.singleton_append]
      have hcond : trimming (before ++ c :: (trail ++ x :: rest)) ((before.length + (trail.length + 1) : Nat) : Int) =
          some true := by
        have hcell := getElem?_cut (before ++ c :: trail) rest x
        rw [List.length_append, List.length_cons, List.append_assoc, List.cons_append] at hcell
        rw [trimming, readCell_natCast, hcell, Option.map_some, htrail x (by simp)]
      have hpos : ((before.length + (trail.length + 1) : Nat) : Int) - 1 =
          ((before.length + trail.length : Nat) : Int) := by omega
      rw [hcut]
      refine (whileDo_true hcond (by rfl)).trans ?_
      rw [hpos]
      exact ih (x :: rest) (fun y hy => htrail y (List.mem_append_left _ hy)) fuel (Nat.lt_of_succ_lt_succ hfuel)

/-- Without such a byte the pointer leaves the block. -/
theorem trimLoop_eq_none (rest : List UInt8) (hlead : ∀ x ∈ lead, isWs x = true) :
    trimLoop (lead ++ rest) (lead.length - 1) = none := by
  refine whileDo_stuck (fun strEnd : Int => strEnd < lead.length) (fun strEnd hlt => ?_) (by omega)
  by_cases hneg : strEnd < 0
  · refine .inl ?_
    rw [trimming, readCell, if_neg (Int.not_le.mpr hneg)]
    rfl
  · obtain ⟨i, rfl⟩ := Int.eq_ofNat_of_zero_le (Int.not_lt.mp hneg)
    have hi : i < lead.length := Int.ofNat_lt.mp hlt
    refine .inr ⟨?_, fun strEnd' hstep => ?_⟩
    · rw [trimming, readCell_natCast, List.getElem?_append_left hi, List.getElem?_eq_getElem hi, Option.map_some,
        hlead _ (List.getElem_mem hi)]
    · obtain rfl := Option.some.inj hstep
      omega

/-! ## The function -/

/-- A string with solid ends between spaces and tabs, in a block. -/
structure Framed (block before lead text trail rest : List UInt8) : Prop where
  block_eq : block = before ++ (lead ++ (text ++ (trail ++ 0 :: rest)))
  not_mem : 0 ∉ lead ++ (text ++ trail)
  lead_ws (x : UInt8) : x ∈ lead → isWs x = true
  trail_ws (x : UInt8) : x ∈ trail → isWs x = true
  starts : ∃ c tail, text = c :: tail ∧ isWs c = false
  ends : ∃ start d, text = start ++ [d] ∧ isWs d = false

namespace Framed

theorem length_eq (h : Framed block before lead text trail rest) :
    endOf (block.drop before.length) = some (lead.length + (text.length + trail.length)) := by
  have hcut : lead ++ (text ++ (trail ++ 0 :: rest)) = lead ++ (text ++ trail) ++ 0 :: rest := by
    rw [List.append_assoc, List.append_assoc]
  rw [h.block_eq, List.drop_left, hcut, endOf_eq (List.mem_append_right _ List.mem_cons_self), strlen,
    cstr_cons_zero h.not_mem, List.length_append, List.length_append]

theorem skipLoop_eq (h : Framed block before lead text trail rest) {strEnd : Int}
    (hend : (before.length + lead.length : Nat) ≤ strEnd) :
    skipLoop block strEnd before.length = some (before ++ lead).length := by
  obtain ⟨c, tail, htext, hc⟩ := h.starts
  have hfuel : lead.length < block.length + 1 := by
    rw [h.block_eq]
    simp only [List.length_append]
    omega
  have hblock : block = before ++ (lead ++ c :: (tail ++ (trail ++ 0 :: rest))) := by
    rw [h.block_eq, htext, List.cons_append]
  have hloop := skipTurns_eq before (tail ++ (trail ++ 0 :: rest)) h.lead_ws hc hend hfuel
  rwa [← hblock, ← List.length_append] at hloop

theorem trimLoop_eq (h : Framed block before lead text trail rest) :
    trimLoop block (before.length + (lead.length + (text.length + trail.length) : Nat) - 1) =
      some (((before ++ lead).length : Int) + text.length - 1) := by
  obtain ⟨start, d, htext, hd⟩ := h.ends
  have hfuel : trail.length < block.length + 1 := by
    rw [h.block_eq]
    simp only [List.length_append]
    omega
  have hblock : block = before ++ lead ++ start ++ d :: (trail ++ 0 :: rest) := by
    rw [h.block_eq, htext]
    simp only [List.append_assoc, List.singleton_append]
  have hloop := trimTurns_eq (before ++ lead ++ start) (0 :: rest) h.trail_ws hd hfuel
  have hfrom : (before.length : Int) + (lead.length + (text.length + trail.length) : Nat) - 1 =
      (((before ++ lead ++ start).length + trail.length : Nat) : Int) := by
    rw [htext]
    simp only [List.length_append, List.length_singleton]
    omega
  have hto : ((before ++ lead).length : Int) + text.length - 1 = (before ++ lead ++ start).length := by
    rw [htext]
    simp only [List.length_append, List.length_singleton]
    omega
  rw [hfrom, hto, trimLoop, hblock]
  rwa [hblock] at hloop

/-- One byte is not returned. -/
theorem removeExtraWS_short (h : Framed block before lead text trail rest) (hone : text.length = 1) :
    removeExtraWS block before.length = some (block, none) := by
  rw [removeExtraWS]
  simp only [Option.bind_eq_bind]
  rw [h.length_eq, Option.bind_some, h.skipLoop_eq (by rw [hone]; omega), Option.bind_some, h.trimLoop_eq,
    Option.bind_some, if_pos (by rw [hone]; omega)]
  rfl

theorem removeExtraWS_eq (h : Framed block before lead text trail rest) (hmore : 2 ≤ text.length)
    {left : Option (List UInt8)} (hpass : Pass text left) (htail : trail ++ 0 :: rest = c :: rest') :
    removeExtraWS block before.length = left.map fun out =>
      (before ++ lead ++ (out ++ 0 :: (List.replicate (text.length - out.length) 0 ++ rest')),
        some (before ++ lead).length) := by
  have hwrite : writeCell block ((before ++ lead).length + text.length - 1 + 1) 0 =
      some (before ++ lead ++ (text ++ 0 :: rest')) := by
    have hblock : block = before ++ lead ++ text ++ c :: rest' := by
      rw [h.block_eq, htail]
      simp only [List.append_assoc]
    have hpos : ((before ++ lead).length : Int) + text.length - 1 + 1 = (before ++ lead ++ text).length := by
      simp only [List.length_append]
      omega
    rw [hblock, hpos, writeCell_cut, List.append_assoc (before ++ lead)]
  have hloop := hpass.loop (before ++ lead) rest' ((before ++ lead ++ (text ++ 0 :: rest')).length + 1)
    (by simp only [List.length_append]; omega)
  rw [removeExtraWS]
  simp only [Option.bind_eq_bind]
  rw [h.length_eq, Option.bind_some, h.skipLoop_eq (by omega), Option.bind_some, h.trimLoop_eq,
    Option.bind_some, if_neg (by omega), hwrite, Option.bind_some, withinSpaceRemove, spaceLoop, hloop]
  cases left with
  | none => rfl
  | some out => rfl

end Framed

/-- A string of spaces and tabs is left to the left. -/
theorem removeExtraWS_eq_none (rest : List UInt8) (hlead : ∀ x ∈ lead, isWs x = true) :
    removeExtraWS (lead ++ 0 :: rest) 0 = none := by
  have hnot : 0 ∉ lead := fun hmem => by
    cases hlead 0 hmem
  have hlength : endOf ((lead ++ 0 :: rest).drop 0) = some lead.length := by
    rw [List.drop_zero, endOf_eq (List.mem_append_right _ List.mem_cons_self), strlen, cstr_cons_zero hnot]
  have htrim := trimLoop_eq_none (0 :: rest) hlead
  rw [removeExtraWS]
  simp only [Option.bind_eq_bind]
  rw [hlength, Option.bind_some, Int.natCast_zero, Int.zero_add, htrim]
  cases skipLoop (lead ++ 0 :: rest) (lead.length - 1) 0 with
  | none => rfl
  | some str => rfl

/-! ## The contract -/

/-- The string without leading and trailing spaces and tabs, and with the first one of each run inside. -/
def withoutExtra (s : List UInt8) : List UInt8 := collapsed isWs (trimmed isWs s)

/-- A call on a block returns that string, and a call on the result returns it again. -/
def Removes (block : List UInt8) : Prop :=
  ∃ block' result, removeExtraWS block 0 = some (block', result) ∧
    (result = none → withoutExtra (cstr block) = []) ∧
    ∀ str, result = some str →
      0 ∈ block'.drop str ∧ cstr (block'.drop str) = withoutExtra (cstr block) ∧
        removeExtraWS block' str = some (block', some str)

theorem exists_framed (hblock : 0 ∈ block) (hstarts : ∃ c tail, trimmed isWs (cstr block) = c :: tail ∧ isWs c = false)
    (hends : ∃ start d, trimmed isWs (cstr block) = start ++ [d] ∧ isWs d = false) :
    ∃ lead trail rest, Framed block [] lead (trimmed isWs (cstr block)) trail rest := by
  obtain ⟨rest, hrest⟩ := exists_rest hblock
  obtain ⟨lead, trail, hcut, hlead, htrail⟩ := exists_ends isWs (cstr block)
  refine ⟨lead, trail, rest, ⟨?_, ?_, hlead, htrail, hstarts, hends⟩⟩
  · rw [List.nil_append, ← List.append_assoc (trimmed isWs (cstr block)), ← List.append_assoc lead, ← hcut]
    exact hrest
  · rw [← hcut]
    exact not_mem_cstr

/-- A call on what the pass has left of a string. -/
theorem removeExtraWS_collapsed (before rest mid : List UInt8) (hc : isWs c = false) (hd : isWs d = false)
    (hzero : 0 ∉ collapsed isWs (c :: (mid ++ [d]))) :
    removeExtraWS (before ++ (collapsed isWs (c :: (mid ++ [d])) ++ 0 :: rest)) before.length =
      some (before ++ (collapsed isWs (c :: (mid ++ [d])) ++ 0 :: rest), some before.length) := by
  obtain ⟨mid', hmid⟩ : ∃ mid', collapsed isWs (c :: (mid ++ [d])) = c :: (mid' ++ [d]) := collapsed_ends hd c mid
  have hchain := isChain_collapsed isWs (c :: (mid ++ [d]))
  have hagain : collapsed isWs (collapsed isWs (c :: (mid ++ [d]))) = collapsed isWs (c :: (mid ++ [d])) :=
    collapsed_of_isChain hchain
  rw [hmid] at hzero hchain hagain ⊢
  have hframed : Framed (before ++ (c :: (mid' ++ [d]) ++ 0 :: rest)) before [] (c :: (mid' ++ [d])) [] rest := by
    refine ⟨rfl, ?_, nofun, nofun, ⟨c, _, rfl, hc⟩, ⟨c :: mid', d, rfl, hd⟩⟩
    rwa [List.nil_append, List.append_nil]
  obtain ⟨left, hpass⟩ := exists_pass (endsSolid_concat hd (c :: mid')) hzero
  have hleft : left = some (c :: (mid' ++ [d])) := by
    rw [← hagain]
    exact hpass.collapses.mpr (collapsible_of_isChain hchain)
  rw [hframed.removeExtraWS_eq (by simp) hpass (List.nil_append _), hleft, Option.map_some, Nat.sub_self,
    List.append_nil]
  rfl

/-- **`RemoveExtraWS`** keeps the contract if at least two bytes are left and no tab is behind a space or a tab, nor
    more spaces than an `int` counts. -/
theorem removeExtraWS_iff (block : List UInt8) (hblock : 0 ∈ block) :
    Removes block ↔ 2 ≤ (trimmed isWs (cstr block)).length ∧ Collapsible (trimmed isWs (cstr block)) := by
  rcases trimmed_cases isWs (cstr block) with hnil | ⟨a, ha, hone⟩ | ⟨a, mid, b, ha, hb, htext⟩
  · -- nothing is left
    refine iff_of_false ?_ fun h => by
      rw [hnil] at h
      exact absurd h.1 (by decide)
    rintro ⟨block', result, hcall, -⟩
    obtain ⟨rest, hrest⟩ := exists_rest hblock
    obtain ⟨lead, trail, hcut, hlead, htrail⟩ := exists_ends isWs (cstr block)
    have hall : ∀ x ∈ cstr block, isWs x = true := fun x hx => by
      rw [hcut, hnil, List.nil_append] at hx
      exact (List.mem_append.mp hx).elim (hlead x) (htrail x)
    rw [hrest, removeExtraWS_eq_none rest hall] at hcall
    cases hcall
  · -- one byte is left
    refine iff_of_false ?_ fun h => by
      rw [hone] at h
      exact absurd h.1 (Nat.not_succ_le_self 1)
    obtain ⟨lead, trail, rest, hframed⟩ := exists_framed hblock ⟨a, [], hone, ha⟩ ⟨[], a, hone, ha⟩
    rintro ⟨block', result, hcall, hnull, -⟩
    have hshort := hframed.removeExtraWS_short (by rw [hone]; rfl)
    have heq := (Option.some.inj (hshort.symm.trans hcall))
    have hleft := hnull (congrArg Prod.snd heq).symm
    rw [withoutExtra, hone] at hleft
    cases hleft
  · -- the pass runs
    obtain ⟨lead, trail, rest, hframed⟩ := exists_framed hblock ⟨a, _, htext, ha⟩ ⟨a :: mid, b, htext, hb⟩
    rw [htext] at hframed
    have hzero : 0 ∉ a :: (mid ++ [b]) := fun hmem =>
      hframed.not_mem (List.mem_append_right _ (List.mem_append_left _ hmem))
    obtain ⟨left, hpass⟩ : ∃ left, Pass (a :: (mid ++ [b])) left := exists_pass (endsSolid_concat hb (a :: mid)) hzero
    obtain ⟨x, rest', htail⟩ : ∃ x rest', trail ++ 0 :: rest = x :: rest' := List.exists_cons_of_ne_nil (by simp)
    have hcall := hframed.removeExtraWS_eq (by simp) hpass htail
    rw [Removes, withoutExtra, htext, ← hpass.collapses]
    constructor
    · rintro ⟨block', result, hcall', -, hright⟩
      obtain ⟨out, hleft, heq⟩ := Option.map_eq_some_iff.mp (hcall.symm.trans hcall')
      obtain ⟨rfl, rfl⟩ := Prod.mk.inj heq
      obtain ⟨-, hcstr, -⟩ := hright _ rfl
      rw [List.drop_left, cstr_cons_zero (hpass.zero out hleft)] at hcstr
      exact ⟨by simp, by rw [hleft, hcstr]⟩
    · rintro ⟨-, hleft⟩
      rw [hleft] at hcall
      refine ⟨_, _, hcall, nofun, fun str hstr => ?_⟩
      obtain rfl := Option.some.inj hstr
      have hnot := hpass.zero _ hleft
      rw [List.drop_left]
      exact ⟨List.mem_append_right _ List.mem_cons_self, cstr_cons_zero hnot,
        removeExtraWS_collapsed ([] ++ lead) _ mid ha hb hnot⟩

theorem removeExtraWS_iff_ab : Removes [32, 97, 32, 32, 98, 9, 0] ↔
    2 ≤ (trimmed isWs (cstr [32, 97, 32, 32, 98, 9, 0])).length ∧
      Collapsible (trimmed isWs (cstr [32, 97, 32, 32, 98, 9, 0])) :=
  removeExtraWS_iff [32, 97, 32, 32, 98, 9, 0] (by decide)

/-- `"a"` is not returned, `"a \tb"` keeps its tab, and the byte before `""` is read. -/
theorem removeExtraWS_wrong : ¬ Removes [97, 0] ∧ ¬ Removes [97, 32, 9, 98, 0] ∧ ¬ Removes [0] := by
  refine ⟨?_, ?_, ?_⟩
  · have hcall : removeExtraWS [97, 0] 0 = some ([97, 0], none) := by decide
    rintro ⟨block', result, hcall', hnull, -⟩
    obtain ⟨-, rfl⟩ := Prod.mk.inj (Option.some.inj (hcall.symm.trans hcall'))
    exact absurd (hnull rfl) (by decide)
  · have hcall : removeExtraWS [97, 32, 9, 98, 0] 0 = some ([97, 32, 9, 98, 0], some 0) := by decide
    rintro ⟨block', result, hcall', -, hright⟩
    obtain ⟨rfl, rfl⟩ := Prod.mk.inj (Option.some.inj (hcall.symm.trans hcall'))
    exact absurd (hright 0 rfl).2.1 (by decide)
  · have hcall : removeExtraWS [0] 0 = none := by decide
    rintro ⟨block', result, hcall', -⟩
    rw [hcall] at hcall'
    cases hcall'

/-- The spaces behind a tab are taken out. -/
example : removeExtraWS [32, 97, 9, 32, 32, 98, 9, 0] 0 = some ([32, 97, 9, 98, 0, 0, 0, 0], some 1) := by decide

end Workbench.ExtraWS
