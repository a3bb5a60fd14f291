import Workbench.Handles.CString
import Workbench.Lib.Pieces
import Workbench.Lib.While

/-!
# `Text.Lines` — `CountLines` and `SplitAndPoint`

The text is in a block with a NUL, and a pointer into it is an index. `CountLines` gives the size of the array that
`SplitAndPoint` fills with the starts of the tokens. What was not written to the array is `none`. A write behind the
array fails.

## Main results
* `splitAndPoint_points` — the pointers are those to the pieces of the text that are not empty;
* `lines_agree_iff` — when they are as many as `CountLines` says.
-/

namespace Workbench.Text

open Handles (cstr)

/-! ## The functions -/

def newline : UInt8 := 10

/-- The loop of `CountLines`. -/
def countLoop : List UInt8 → Nat → Option Nat
  | [], _ => none
  | c :: dictionary, count =>
      if c ≠ 0 then countLoop dictionary (count + if c = newline then 1 else 0) else some count

def countLines (dictionary : List UInt8) : Option Nat := (countLoop dictionary 0).map (· + 1)

/-- `strtok`, for the string at `saved`: the block afterwards, where the next search starts, and the token. A token that
    goes on to the end of the string is the last one. -/
def strtok (block : List UInt8) (saved : Option Nat) (delim : List UInt8) : List UInt8 × Option Nat × Option Nat :=
  match saved with
  | none => (block, none, none)
  | some s =>
      let token := s + ((cstr (block.drop s)).takeWhile (· ∈ delim)).length
      let length := ((cstr (block.drop token)).takeWhile (· ∉ delim)).length
      if length = 0 then (block, none, none)
      else if block[token + length]? = some 0 then (block, none, some token)
      else (block.set (token + length) 0, some (token + length + 1), some token)

/-- What the loop of `SplitAndPoint` works on, with the pointer that `strtok` keeps. -/
structure Split where
  block : List UInt8
  saved : Option Nat
  token : Option Nat
  pointersArr : List (Option Nat)
  index : Nat

def tokenLeft (s : Split) : Option Bool := some s.token.isSome

def splitStep (s : Split) : Option Split :=
  if s.index < s.pointersArr.length then
    let (block, saved, token) := strtok s.block s.saved [newline]
    some ⟨block, saved, token, s.pointersArr.set s.index s.token, s.index + 1⟩
  else
    none

def splitAndPoint (fuel : Nat) (pointersArr : List (Option Nat)) (dictionary : List UInt8) :
    Option (List (Option Nat) × List UInt8) := do
  let (block, saved, token) := strtok dictionary (some 0) [newline]
  let s ← whileDo tokenLeft splitStep fuel ⟨block, saved, token, pointersArr, 0⟩
  return (s.pointersArr, s.block)

/-- The part of `main` that fills the array. -/
def pointLines (fuel : Nat) (dictionary : List UInt8) : Option (List (Option Nat) × List UInt8) := do
  let linesNum ← countLines dictionary
  splitAndPoint fuel (List.replicate linesNum none) dictionary

/-! ## `CountLines` -/

variable {text before rest tail piece seps block : List UInt8} {c : UInt8} {fuel count : Nat}

theorem countLoop_eq (htext : 0 ∉ text) (tail : List UInt8) (count : Nat) :
    countLoop (text ++ 0 :: tail) count = some (count + text.countP (· == newline)) := by
  induction text generalizing count with
  | nil => rfl
  | cons c text ih =>
      have hc : c ≠ 0 := fun hzero => htext (hzero ▸ List.mem_cons_self)
      rw [List.cons_append, countLoop, if_pos hc, ih fun hmem => htext (List.mem_cons_of_mem c hmem), List.countP_cons]
      congr 1
      by_cases hnew : c = newline
      · rw [if_pos hnew, if_pos (beq_iff_eq.mpr hnew)]
        omega
      · rw [if_neg hnew, if_neg (mt beq_iff_eq.mp hnew)]
        omega

theorem countLines_eq (hblock : 0 ∈ block) : countLines block = some ((cstr block).countP (· == newline) + 1) := by
  obtain ⟨tail, htail⟩ := Handles.exists_rest hblock
  have hloop := countLoop_eq (show 0 ∉ cstr block from Handles.not_mem_cstr) tail 0
  rw [← htail, Nat.zero_add] at hloop
  rw [countLines, hloop]
  rfl

/-! ## `strtok` -/

/-- Is a delimiter. -/
def delimits (c : UInt8) : Bool := c == newline

theorem decide_mem_newline : (fun c => decide (c ∈ [newline])) = delimits := by
  funext c
  rw [decide_eq_decide.mpr List.mem_singleton]
  rfl

theorem decide_not_mem_newline : (fun c => decide (c ∉ [newline])) = (!delimits ·) := by
  funext c
  rw [← decide_mem_newline]
  exact decide_not

/-- The string that starts at an index. -/
theorem cstr_drop (hrest : 0 ∉ rest) (before tail : List UInt8) :
    cstr ((before ++ (rest ++ 0 :: tail)).drop before.length) = rest := by
  rw [List.drop_left, Handles.cstr_cons_zero hrest]

/-- The rest has no token. -/
theorem strtok_none (hrest : 0 ∉ rest) (hseps : ∀ c ∈ rest, delimits c = true) (before tail : List UInt8) :
    strtok (before ++ (rest ++ 0 :: tail)) (some before.length) [newline] =
      (before ++ (rest ++ 0 :: tail), none, none) := by
  have htake : rest.takeWhile delimits = rest := List.takeWhile_eq_self_iff.mpr hseps
  have hend : cstr ((before ++ (rest ++ 0 :: tail)).drop (before.length + rest.length)) = [] := by
    have hdrop := cstr_drop (show 0 ∉ [] from List.not_mem_nil) (before ++ rest) tail
    rwa [List.nil_append, List.append_assoc, List.length_append] at hdrop
  simp only [strtok, cstr_drop hrest, decide_mem_newline, htake, hend, List.takeWhile_nil, List.length_nil, if_true]

/-- A token, and what is right behind it. -/
theorem strtok_token (hseps : ∀ c ∈ seps, delimits c = true) (hne : piece ≠ [])
    (hpiece : ∀ c ∈ piece, delimits c = false) (hzero : 0 ∉ seps ++ (piece ++ rest)) (before tail : List UInt8)
    (hrest : ∀ c rest', rest = c :: rest' → delimits c = true) :
    strtok (before ++ (seps ++ (piece ++ rest) ++ 0 :: tail)) (some before.length) [newline] =
      if rest = [] then
        (before ++ (seps ++ (piece ++ rest) ++ 0 :: tail), none, some (before ++ seps).length)
      else
        ((before ++ (seps ++ (piece ++ rest) ++ 0 :: tail)).set (before ++ seps ++ piece).length 0,
          some ((before ++ seps ++ piece).length + 1), some (before ++ seps).length) := by
  have hfront : (seps ++ (piece ++ rest)).takeWhile delimits = seps := by
    obtain ⟨c, piece', rfl⟩ := List.exists_cons_of_ne_nil hne
    have hc : delimits c = false := hpiece c List.mem_cons_self
    rw [List.takeWhile_append_of_pos hseps, List.cons_append,
      List.takeWhile_cons_of_neg (by rw [hc]; exact Bool.false_ne_true), List.append_nil]
  have htoken : (piece ++ rest).takeWhile (!delimits ·) = piece := by
    rw [List.takeWhile_append_of_pos fun c hc => by rw [hpiece c hc]; rfl]
    cases rest with
    | nil => rw [List.takeWhile_nil, List.append_nil]
    | cons c rest' =>
        rw [List.takeWhile_cons_of_neg (by rw [hrest c rest' rfl]; exact Bool.false_ne_true), List.append_nil]
  have hstart : cstr ((before ++ (seps ++ (piece ++ rest) ++ 0 :: tail)).drop (before.length + seps.length)) =
      piece ++ rest := by
    have hdrop := cstr_drop (fun hmem => hzero (List.mem_append_right seps hmem)) (before ++ seps) tail
    rwa [List.append_assoc, List.length_append, ← List.append_assoc seps] at hdrop
  have hlength : piece.length ≠ 0 := fun hnil => hne (List.eq_nil_of_length_eq_zero hnil)
  have hnext : (before ++ (seps ++ (piece ++ rest) ++ 0 :: tail))[before.length + seps.length + piece.length]? =
      (rest ++ 0 :: tail)[0]? := by
    have hsplit : before ++ (seps ++ (piece ++ rest) ++ 0 :: tail) =
        before ++ seps ++ piece ++ (rest ++ 0 :: tail) := by
      simp only [List.append_assoc]
    rw [hsplit, List.getElem?_append_right (by simp only [List.length_append]; omega)]
    simp only [List.length_append, Nat.sub_self]
  simp only [strtok, cstr_drop hzero, decide_mem_newline, hfront, hstart, decide_not_mem_newline, htoken,
    if_neg hlength, hnext, List.length_append]
  cases rest with
  | nil => rfl
  | cons c rest' =>
      have hc : c ≠ 0 := fun heq => hzero (by simp [heq])
      rw [if_neg (List.cons_ne_nil c rest'), if_neg]
      rintro ⟨⟩
      exact hc rfl

/-- The last token. -/
theorem strtok_last (hseps : ∀ c ∈ seps, delimits c = true) (hne : piece ≠ [])
    (hpiece : ∀ c ∈ piece, delimits c = false) (hzero : 0 ∉ seps ++ piece) (before tail : List UInt8) :
    strtok (before ++ (seps ++ piece ++ 0 :: tail)) (some before.length) [newline] =
      (before ++ (seps ++ piece ++ 0 :: tail), none, some (before ++ seps).length) := by
  rw [← List.append_nil piece] at hzero
  have htoken := strtok_token hseps hne hpiece hzero before tail fun _ _ => nofun
  rwa [if_pos rfl, List.append_nil] at htoken

/-- A token with a delimiter behind it, which is overwritten. -/
theorem strtok_more {sep : UInt8} (hseps : ∀ c ∈ seps, delimits c = true) (hne : piece ≠ [])
    (hpiece : ∀ c ∈ piece, delimits c = false) (hsep : delimits sep = true)
    (hzero : 0 ∉ seps ++ (piece ++ sep :: rest)) (before tail : List UInt8) :
    strtok (before ++ (seps ++ (piece ++ sep :: rest) ++ 0 :: tail)) (some before.length) [newline] =
      ((before ++ seps ++ piece ++ [0]) ++ (rest ++ 0 :: tail), some (before ++ seps ++ piece ++ [0]).length,
        some (before ++ seps).length) := by
  have hsplit : before ++ (seps ++ (piece ++ sep :: rest) ++ 0 :: tail) =
      before ++ seps ++ piece ++ (sep :: (rest ++ 0 :: tail)) := by
    simp only [List.append_assoc, List.cons_append]
  have htoken := strtok_token hseps hne hpiece hzero before tail fun c rest' heq => by
    rwa [← (List.cons.inj heq).1]
  rw [htoken, if_neg (List.cons_ne_nil _ _), hsplit, List.set_append_right _ _ (Nat.le_refl _), Nat.sub_self,
    List.set_cons_zero]
  simp only [List.append_assoc, List.cons_append, List.nil_append, List.length_append, List.length_singleton,
    Nat.add_assoc]

/-! ## `SplitAndPoint` -/

variable {front back : List (Option Nat)} {saved token : Option Nat} {x : Option Nat}

/-- One turn of the loop, with room for the pointer. -/
theorem split_turn (block : List UInt8) (saved : Option Nat) (t : Nat) (front back : List (Option Nat))
    (x : Option Nat) :
    whileDo tokenLeft splitStep (fuel + 1) ⟨block, saved, some t, front ++ x :: back, front.length⟩ =
      whileDo tokenLeft splitStep fuel ⟨(strtok block saved [newline]).1, (strtok block saved [newline]).2.1,
        (strtok block saved [newline]).2.2, (front ++ [some t]) ++ back, (front ++ [some t]).length⟩ := by
  have hset : (front ++ x :: back).set front.length (some t) = (front ++ [some t]) ++ back := by
    rw [List.set_append_right _ _ (Nat.le_refl _), Nat.sub_self, List.set_cons_zero, List.append_assoc]
    rfl
  have hlt : front.length < (front ++ x :: back).length := by
    rw [List.length_append, List.length_cons]
    omega
  refine whileDo_true rfl ?_
  rw [splitStep, if_pos hlt, hset, List.length_append]
  rfl

/-- **The loop** writes a pointer to each piece of the rest, and leaves what is before. -/
theorem split_loop (hrest : 0 ∉ rest) (hroom : (pieces delimits rest).length ≤ back.length)
    (hfuel : (pieces delimits rest).length < fuel)
    (hstart : strtok (before ++ (rest ++ 0 :: tail)) (some before.length) [newline] = (block, saved, token)) :
    ∃ s, ∃ starts : List Nat, ∃ after, whileDo tokenLeft splitStep fuel
        ⟨block, saved, token, front ++ back, front.length⟩ = some s ∧
      s.pointersArr = front ++ (starts.map some ++ back.drop starts.length) ∧ s.block = before ++ after ∧
      starts.map (fun p => cstr (s.block.drop p)) = pieces delimits rest := by
  induction fuel generalizing before rest tail front back block saved token with
  | zero => exact absurd hfuel (Nat.not_lt_zero _)
  | succ fuel ih =>
      rcases pieces_cases delimits rest with hseps | ⟨seps, piece, rest, rfl, hseps, hne, hpiece, hor⟩
      · -- no token is left
        rw [strtok_none hrest hseps] at hstart
        obtain ⟨rfl, rfl, rfl⟩ : before ++ (rest ++ 0 :: tail) = block ∧ none = saved ∧ none = token := by
          simpa only [Prod.mk.injEq] using hstart
        exact ⟨_, [], rest ++ 0 :: tail, whileDo_false rfl, rfl, rfl, (pieces_eq_nil hseps).symm⟩
      · have hpiece0 : 0 ∉ piece := fun hmem => hrest (List.mem_append_right _ (List.mem_append_left _ hmem))
        rw [pieces_append hseps] at hroom hfuel ⊢
        rcases hor with rfl | ⟨sep, rest, rfl, hsep⟩
        · -- the last token
          rw [List.append_nil] at hstart hrest
          rw [List.append_nil, pieces_last hpiece hne] at hroom hfuel ⊢
          rw [strtok_last hseps hne hpiece hrest] at hstart
          obtain ⟨rfl, rfl, rfl⟩ : before ++ (seps ++ piece ++ 0 :: tail) = block ∧ none = saved ∧
              some (before ++ seps).length = token := by
            simpa only [Prod.mk.injEq] using hstart
          obtain ⟨x, back, rfl⟩ := List.exists_cons_of_length_pos hroom
          obtain ⟨fuel, rfl⟩ := Nat.exists_eq_succ_of_ne_zero (Nat.ne_of_gt (Nat.lt_of_succ_lt_succ hfuel))
          let s : Split := ⟨before ++ (seps ++ piece ++ 0 :: tail), none, none,
            (front ++ [some (before ++ seps).length]) ++ back, (front ++ [some (before ++ seps).length]).length⟩
          refine ⟨s, [(before ++ seps).length], seps ++ piece ++ 0 :: tail, ?_, List.append_assoc _ _ _, rfl, ?_⟩
          · rw [split_turn]
            exact whileDo_false rfl
          · have hdrop := cstr_drop hpiece0 (before ++ seps) tail
            rw [List.append_assoc, ← List.append_assoc seps] at hdrop
            exact congrArg (fun s => [s]) hdrop
        · rw [strtok_more hseps hne hpiece hsep hrest] at hstart
          rw [pieces_first hpiece hne hsep] at hroom hfuel ⊢
          obtain ⟨rfl, rfl, rfl⟩ : before ++ seps ++ piece ++ [0] ++ (rest ++ 0 :: tail) = block ∧
              some (before ++ seps ++ piece ++ [0]).length = saved ∧ some (before ++ seps).length = token := by
            simpa only [Prod.mk.injEq] using hstart
          obtain ⟨x, back, rfl⟩ := List.exists_cons_of_length_pos (Nat.zero_lt_of_lt hroom)
          have hrest' : 0 ∉ rest := fun hmem =>
            hrest (List.mem_append_right _ (List.mem_append_right _ (List.mem_cons_of_mem sep hmem)))
          obtain ⟨⟨block', saved', token'⟩, hnext⟩ : ∃ call,
              strtok (before ++ seps ++ piece ++ [0] ++ (rest ++ 0 :: tail))
                (some (before ++ seps ++ piece ++ [0]).length) [newline] = call := ⟨_, rfl⟩
          obtain ⟨s, starts, after, hloop, hpointers, hblock, hstrings⟩ :=
            @ih (before ++ seps ++ piece ++ [0]) rest tail _ (front ++ [some (before ++ seps).length]) back _ _ hrest'
              (Nat.le_of_succ_le_succ hroom) (Nat.lt_of_succ_lt_succ hfuel) hnext
          have hsplit : s.block = before ++ seps ++ (piece ++ 0 :: after) := by
            rw [hblock]
            simp only [List.append_assoc, List.cons_append, List.nil_append]
          refine ⟨s, (before ++ seps).length :: starts, seps ++ (piece ++ 0 :: after), ?_, ?_, ?_, ?_⟩
          · rw [split_turn, hnext]
            exact hloop
          · rw [hpointers, List.append_assoc]
            rfl
          · rw [hsplit, List.append_assoc]
          · rw [List.map_cons, hstrings, hsplit, cstr_drop hpiece0]

/-- **The pointers are those to the pieces of the text**, if there is room for them. -/
theorem splitAndPoint_points (hblock : 0 ∈ block) (hroom : (pieces delimits (cstr block)).length ≤ back.length)
    (hfuel : (pieces delimits (cstr block)).length < fuel) :
    ∃ starts : List Nat, ∃ block', splitAndPoint fuel back block =
        some (starts.map some ++ back.drop starts.length, block') ∧
      starts.map (fun p => cstr (block'.drop p)) = pieces delimits (cstr block) := by
  obtain ⟨tail, htail⟩ := Handles.exists_rest hblock
  obtain ⟨block₁, saved, token, hstart⟩ :
      ∃ block₁ saved token, strtok block (some 0) [newline] = (block₁, saved, token) := ⟨_, _, _, rfl⟩
  have hstart' : strtok ([] ++ (cstr block ++ 0 :: tail)) (some 0) [newline] = (block₁, saved, token) := by
    rwa [List.nil_append, ← htail]
  obtain ⟨s, starts, after, hloop, hpointers, -, hstrings⟩ :=
    @split_loop [] _ tail block₁ fuel [] back saved token Handles.not_mem_cstr hroom hfuel hstart'
  refine ⟨starts, s.block, ?_, hstrings⟩
  rw [List.nil_append, List.length_nil] at hloop
  rw [List.nil_append] at hpointers
  rw [splitAndPoint, hstart]
  show (whileDo tokenLeft splitStep fuel ⟨block₁, saved, token, back, 0⟩).bind _ = _
  rw [hloop, ← hpointers]
  rfl

/-! ## Both functions -/

/-- **The array is filled**: no entry is left, and each one points to a piece of the text. -/
def LinesAgree (block : List UInt8) : Prop :=
  ∃ least, ∀ fuel, least ≤ fuel → ∃ starts : List Nat, ∃ block',
    pointLines fuel block = some (starts.map some, block') ∧ countLines block = some starts.length ∧
      starts.map (fun p => cstr (block'.drop p)) = pieces delimits (cstr block)

/-- **The functions agree if and only if** no line of the text is empty. -/
theorem lines_agree_iff (hblock : 0 ∈ block) : LinesAgree block ↔ [] ∉ (cstr block).splitOn newline := by
  have hcount := countLines_eq hblock
  have hle : (pieces delimits (cstr block)).length ≤ (cstr block).countP delimits + 1 := length_pieces_le _ _
  have hiff := length_pieces_eq_iff delimits (cstr block)
  rw [show (cstr block).splitOn newline = (cstr block).splitOnP delimits from rfl, ← hiff]
  constructor
  · rintro ⟨least, hrun⟩
    obtain ⟨starts, block', -, hlength, hstrings⟩ := hrun least (Nat.le_refl least)
    rw [← hstrings, List.length_map]
    exact Option.some.inj (hlength.symm.trans hcount)
  · intro hlength
    refine ⟨(pieces delimits (cstr block)).length + 1, fun fuel hfuel => ?_⟩
    have hroom : (pieces delimits (cstr block)).length ≤
        (List.replicate ((cstr block).countP delimits + 1) (none : Option Nat)).length := by
      rwa [List.length_replicate]
    obtain ⟨starts, block', hsplit, hstrings⟩ := splitAndPoint_points hblock hroom hfuel
    have hstarts : starts.length = (cstr block).countP delimits + 1 := by
      rw [← hlength, ← hstrings, List.length_map]
    rw [hstarts, List.drop_of_length_le (Nat.le_of_eq List.length_replicate), List.append_nil] at hsplit
    refine ⟨starts, block', ?_, hcount.trans (congrArg some hstarts.symm), hstrings⟩
    rw [pointLines, hcount]
    exact hsplit

theorem lines_agree_sample : LinesAgree [97, 98, newline, 99, 0] := (lines_agree_iff (by decide)).mpr (by decide)

/-- The line at the end of a file, as in a dictionary. -/
theorem lines_disagree : ¬ LinesAgree [97, newline, 0] := by
  rintro ⟨least, hrun⟩
  obtain ⟨starts, block', -, hlength, hstrings⟩ := hrun least (Nat.le_refl least)
  have hpieces : (pieces delimits (cstr [97, newline, 0])).length = 1 := by decide
  rw [← hstrings, List.length_map] at hpieces
  rw [hpieces] at hlength
  cases hlength

end Workbench.Text
