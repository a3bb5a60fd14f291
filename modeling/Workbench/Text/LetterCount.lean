import Workbench.Handles.CString
import Workbench.Lib.Threads

/-!
# `Text.LetterCount` — `MT_C_Sorting`

The main thread creates four threads, and each one counts the letters of its range of the text in a table of its own. A
`char` is signed. An increment outside of the table leaves the thread at `outside`. The main thread joins the threads
in order and adds their tables up.

## Contents
* `State`, `step` — where the threads are, and the step of one of them;
* `Inv`, `step_inv` — what they have counted;
* `exists_step` — the program goes on until all threads are joined;
* `counts_iff` — when the totals are those of the text.
-/

namespace Workbench.Text.LetterCount

open Handles (cstr strlen)

/-! ## The program -/

/-- `ASCII_RANGE` cells. -/
abbrev Table := Fin 256 → BitVec 64

def numOfThreads : Nat := 4

def rangeOfThread (number : Nat) : Nat := number / numOfThreads

def startOfRange (number index : Nat) : Nat := rangeOfThread number * index

/-- The value of a `char`. -/
def charValue (c : UInt8) : Int := if c.toNat < 128 then c.toNat else c.toNat - 256

/-- `++letter_count[index]`. -/
def increment (letterCount : Table) (index : Int) : Option Table :=
  if h : 0 ≤ index ∧ index < 256 then
    let cell : Fin 256 := ⟨index.toNat, by omega⟩
    some (Function.update letterCount cell (letterCount cell + 1))
  else
    none

/-- Where a thread is in `ThreadLettersCounter`. -/
inductive Place
  | idle
  | counting (i : Nat) (letterCount : Table)
  | outside (index : Int)
  | returned (letterCount : Table)

/-- Where the main thread is in `MT_C_Sorting`, which creates and joins the threads in order. -/
inductive Main
  | create (i : Nat)
  | join (i : Nat)

structure State where
  main : Main
  thread : Fin 4 → Place
  arr : Table

inductive Party
  | main
  | thread (index : Fin 4)

/-- The next letter. -/
def countLetter (i : Nat) (letterCount : Table) (c : UInt8) : Place :=
  match increment letterCount (charValue c) with
  | some letterCount => .counting (i + 1) letterCount
  | none => .outside (charValue c)

/-- A thread that is not created at the first attempt is created at a later one. -/
def mainStep (number : Nat) (s : State) : Option State :=
  match s.main with
  | .create i =>
      if h : i < 4 then
        some { s with main := .create (i + 1),
                      thread := Function.update s.thread ⟨i, h⟩ (.counting (startOfRange number i) fun _ => 0) }
      else
        some { s with main := .join 0 }
  | .join i =>
      if h : i < 4 then
        match s.thread ⟨i, h⟩ with
        | .returned letterCount => some { s with main := .join (i + 1), arr := fun c => s.arr c + letterCount c }
        | _ => none
      else
        none

def threadStep (bigDictionary : List UInt8) (number : Nat) (s : State) (index : Fin 4) : Option State :=
  match s.thread index with
  | .counting i letterCount =>
      if i < startOfRange number index + rangeOfThread number then do
        let c ← bigDictionary[i]?
        return { s with thread := Function.update s.thread index (countLetter i letterCount c) }
      else
        some { s with thread := Function.update s.thread index (.returned letterCount) }
  | _ => none

def step (bigDictionary : List UInt8) (s : State) : Party → Option State
  | .main => mainStep (strlen bigDictionary) s
  | .thread index => threadStep bigDictionary (strlen bigDictionary) s index

/-- The runs of `MT_C_Sorting`. -/
def program (bigDictionary : List UInt8) (arr : Table) : System State Party :=
  .ofThreads (fun s => s = ⟨.create 0, fun _ => .idle, arr⟩) (step bigDictionary)

/-! ## Counting -/

/-- How often each byte is in the text. -/
def counts (text : List UInt8) : Table := fun c => BitVec.ofNat 64 (text.countP (·.toNat == c.val))

variable {block text : List UInt8} {arr : Table} {s s' : State} {index : Fin 4} {i j n : Nat}

theorem counts_nil : counts [] = fun _ => 0 := rfl

theorem counts_append (xs ys : List UInt8) : counts (xs ++ ys) = fun c => counts xs c + counts ys c := by
  funext c
  rw [counts, List.countP_append, BitVec.ofNat_add]
  rfl

/-- One letter more. -/
theorem increment_counts {c : UInt8} (hc : c.toNat < 128) (text : List UInt8) :
    increment (counts text) (charValue c) = some (counts (text ++ [c])) := by
  have hvalue : charValue c = c.toNat := if_pos hc
  rw [increment, dif_pos (by rw [hvalue]; omega), counts_append]
  refine congrArg some (funext fun cell => ?_)
  have hcell : (cell = ⟨(charValue c).toNat, by rw [hvalue]; omega⟩) ↔ c.toNat = cell.val := by
    rw [Fin.ext_iff]
    show cell.val = (charValue c).toNat ↔ _
    rw [hvalue, Int.toNat_natCast]
    exact eq_comm
  rw [Function.update_apply]
  have hone : counts [c] cell = if c.toNat = cell.val then 1 else 0 := by
    rw [counts, List.countP_singleton]
    by_cases heq : c.toNat = cell.val
    · rw [if_pos heq, if_pos (beq_iff_eq.mpr heq)]
      rfl
    · rw [if_neg heq, if_neg (mt beq_iff_eq.mp heq)]
      rfl
  by_cases heq : c.toNat = cell.val
  · rw [if_pos (hcell.mpr heq), ← hcell.mpr heq, hone, if_pos heq]
  · rw [if_neg (mt hcell.mp heq), hone, if_neg heq]
    exact (BitVec.add_zero _).symm

theorem increment_eq_none {c : UInt8} (hc : ¬ c.toNat < 128) (letterCount : Table) :
    increment letterCount (charValue c) = none := by
  have hlt := c.toNat_lt
  have hvalue : charValue c = c.toNat - 256 := if_neg hc
  rw [increment, dif_neg (by omega)]

/-- Fewer letters than a counter can hold. -/
theorem eq_nil_of_counts (hlength : text.length < 18446744073709551616) (h : ∀ c, counts text c = 0) : text = [] := by
  refine List.eq_nil_iff_forall_not_mem.mpr fun b hb => ?_
  have hpos : 0 < text.countP (·.toNat == b.toNat) := List.countP_pos_iff.mpr ⟨b, hb, beq_self_eq_true _⟩
  have hle : text.countP (·.toNat == b.toNat) ≤ text.length := List.countP_le_length
  have hzero := congrArg BitVec.toNat (h ⟨b.toNat, b.toNat_lt⟩)
  rw [counts, BitVec.toNat_ofNat, Nat.mod_eq_of_lt (Nat.lt_of_le_of_lt hle hlength)] at hzero
  exact absurd hzero (Nat.ne_of_gt hpos)

/-! ## Parts of the text -/

/-- The letters from `i` up to `j`. -/
def part (text : List UInt8) (i j : Nat) : List UInt8 := (text.take j).drop i

/-- The letters that are not negative as a `char`. -/
def Ascii (text : List UInt8) : Prop := ∀ c ∈ text, c.toNat < 128

theorem part_self (text : List UInt8) (i : Nat) : part text i i = [] :=
  List.drop_eq_nil_of_le (List.length_take_le i text)

theorem part_succ {c : UInt8} (hij : i ≤ j) (hc : text[j]? = some c) : part text i (j + 1) = part text i j ++ [c] := by
  obtain ⟨hj, rfl⟩ := List.getElem?_eq_some_iff.mp hc
  rw [part, List.take_succ_eq_append_getElem hj, List.drop_append_of_le_length (by rw [List.length_take]; omega)]
  rfl

theorem take_append_part (hij : i ≤ j) (text : List UInt8) : text.take i ++ part text i j = text.take j := by
  have htake : (text.take j).take i = text.take i := by rw [List.take_take, Nat.min_eq_left hij]
  rw [part, ← htake, List.take_append_drop]

theorem Ascii.append {xs ys : List UInt8} (hxs : Ascii xs) (hys : Ascii ys) : Ascii (xs ++ ys) :=
  fun c hc => (List.mem_append.mp hc).elim (hxs c) (hys c)

theorem startOfRange_le (hi : i ≤ 4) (number : Nat) : startOfRange number i ≤ number := by
  have hmul : rangeOfThread number * i ≤ rangeOfThread number * 4 := Nat.mul_le_mul_left _ hi
  have hdiv : rangeOfThread number * 4 ≤ number := Nat.div_mul_le_self number 4
  exact hmul.trans hdiv

/-- The end of a range is the start of the next one. -/
theorem startOfRange_succ (number i : Nat) :
    startOfRange number (i + 1) = startOfRange number i + rangeOfThread number := Nat.mul_succ _ _

/-! ## The invariant -/

/-- What a thread has counted. -/
def Counted (text : List UInt8) (index : Fin 4) : Place → Prop
  | .idle => True
  | .counting i letterCount =>
      startOfRange text.length index ≤ i ∧ i ≤ startOfRange text.length (index + 1) ∧
        Ascii (part text (startOfRange text.length index) i) ∧
        letterCount = counts (part text (startOfRange text.length index) i)
  | .outside _ => ¬ Ascii text
  | .returned letterCount =>
      Ascii (part text (startOfRange text.length index) (startOfRange text.length (index + 1))) ∧
        letterCount = counts (part text (startOfRange text.length index) (startOfRange text.length (index + 1)))

/-- What the main thread has added up. -/
def Added (text : List UInt8) (arr : Table) (s : State) : Prop :=
  match s.main with
  | .create i => i ≤ 4 ∧ s.arr = arr ∧ ∀ index : Fin 4, s.thread index = .idle ↔ i ≤ index
  | .join i => i ≤ 4 ∧ Ascii (text.take (startOfRange text.length i)) ∧
      (s.arr = fun c => arr c + counts (text.take (startOfRange text.length i)) c) ∧ ∀ index, s.thread index ≠ .idle

structure Inv (text : List UInt8) (arr : Table) (s : State) : Prop where
  counted (index : Fin 4) : Counted text index (s.thread index)
  added : Added text arr s

theorem getElem?_cstr (hi : i < strlen block) : block[i]? = (cstr block)[i]? := by
  have hinitial : cstr block <+: block := List.takeWhile_prefix _
  rw [List.getElem?_eq_getElem hi]
  exact (hinitial.getElem hi) ▸ List.getElem?_eq_getElem _

/-- One letter of a range. -/
theorem countLetter_counted {c : UInt8} {letterCount : Table} (h : Counted text index (.counting i letterCount))
    (hlt : i < startOfRange text.length (index + 1)) (hc : text[i]? = some c) :
    Counted text index (countLetter i letterCount c) := by
  obtain ⟨hstart, -, hascii, rfl⟩ := h
  rw [countLetter]
  by_cases hsmall : c.toNat < 128
  · rw [increment_counts hsmall, ← part_succ hstart hc]
    refine ⟨hstart.trans (Nat.le_succ i), hlt, ?_, rfl⟩
    rw [part_succ hstart hc]
    exact hascii.append fun b hb => List.mem_singleton.mp hb ▸ hsmall
  · rw [increment_eq_none hsmall]
    exact fun hall => hsmall (hall c (List.mem_of_getElem? hc))

/-- A thread goes on, and is not idle. -/
theorem Inv.thread (h : Inv text arr s) {place : Place} (hplace : Counted text index place)
    (hold : s.thread index ≠ .idle) (hnew : place ≠ .idle) :
    Inv text arr { s with thread := Function.update s.thread index place } := by
  have hidle : ∀ other, Function.update s.thread index place other = .idle ↔ s.thread other = .idle := by
    intro other
    rw [Function.update_apply]
    by_cases heq : other = index
    · rw [if_pos heq, heq]
      exact iff_of_false hnew hold
    · rw [if_neg heq]
  refine ⟨fun other => ?_, ?_⟩
  · show Counted text other (Function.update s.thread index place other)
    by_cases heq : other = index
    · subst heq
      rwa [Function.update_self]
    · rw [Function.update_of_ne heq]
      exact h.counted other
  · have hadded := h.added
    rw [Added] at hadded ⊢
    cases hmain : s.main with
    | create i =>
        simp only [hmain] at hadded ⊢
        exact ⟨hadded.1, hadded.2.1, fun other => (hidle other).trans (hadded.2.2 other)⟩
    | join i =>
        simp only [hmain] at hadded ⊢
        exact ⟨hadded.1, hadded.2.1, hadded.2.2.1, fun other => mt (hidle other).mp (hadded.2.2.2 other)⟩

/-! ## Steps -/

theorem threadStep_inv (h : Inv (cstr block) arr s) (hstep : threadStep block (strlen block) s index = some s') :
    Inv (cstr block) arr s' := by
  have hcounted := h.counted index
  rw [threadStep] at hstep
  cases hplace : s.thread index with
  | idle | outside _ | returned _ =>
      simp only [hplace] at hstep
      cases hstep
  | counting i letterCount =>
      have hidle : s.thread index ≠ .idle := by
        rw [hplace]
        nofun
      simp only [hplace] at hstep hcounted
      by_cases hlt : i < startOfRange (strlen block) index + rangeOfThread (strlen block)
      · rw [if_pos hlt] at hstep
        obtain ⟨c, hc, hs'⟩ := Option.bind_eq_some_iff.mp hstep
        obtain rfl := Option.some.inj hs'
        rw [← startOfRange_succ] at hlt
        have hi : i < strlen block := Nat.lt_of_lt_of_le hlt (startOfRange_le index.isLt _)
        rw [getElem?_cstr hi] at hc
        refine h.thread (countLetter_counted hcounted hlt hc) hidle ?_
        rw [countLetter]
        split
        · nofun
        · nofun
      · rw [if_neg hlt] at hstep
        obtain rfl := Option.some.inj hstep
        obtain ⟨hstart, hend, hascii, hcounts⟩ := hcounted
        rw [← startOfRange_succ] at hlt
        obtain rfl : i = startOfRange (cstr block).length (index + 1) := Nat.le_antisymm hend (Nat.not_lt.mp hlt)
        exact h.thread ⟨hascii, hcounts⟩ hidle nofun

/-- A thread is created. -/
theorem Inv.create (h : Inv text arr s) (hmain : s.main = .create i) (hi : i < 4) :
    Inv text arr { s with main := .create (i + 1),
                          thread := Function.update s.thread ⟨i, hi⟩
                            (.counting (startOfRange text.length i) fun _ => 0) } := by
  have hadded := h.added
  simp only [Added, hmain] at hadded
  refine ⟨fun other => ?_, hi, hadded.2.1, fun other => ?_⟩
  · show Counted text other (Function.update s.thread ⟨i, hi⟩ _ other)
    by_cases heq : other = ⟨i, hi⟩
    · subst heq
      rw [Function.update_self]
      refine ⟨Nat.le_refl _, ?_, ?_, ?_⟩
      · rw [startOfRange_succ]
        exact Nat.le_add_right _ _
      · rw [part_self]
        exact nofun
      · rw [part_self, counts_nil]
    · rw [Function.update_of_ne heq]
      exact h.counted other
  · show Function.update s.thread ⟨i, hi⟩ _ other = .idle ↔ i + 1 ≤ other.val
    rw [Function.update_apply]
    by_cases heq : other = ⟨i, hi⟩
    · rw [if_pos heq, heq]
      exact iff_of_false nofun (Nat.not_succ_le_self i)
    · have hne : other.val ≠ i := fun hval => heq (Fin.ext hval)
      rw [if_neg heq, hadded.2.2 other]
      omega

/-- A thread is joined: its range is behind those that are added up. -/
theorem Inv.join (h : Inv text arr s) (hmain : s.main = .join i) (hi : i < 4) {letterCount : Table}
    (hplace : s.thread ⟨i, hi⟩ = .returned letterCount) :
    Inv text arr { s with main := .join (i + 1), arr := fun c => s.arr c + letterCount c } := by
  have hadded := h.added
  simp only [Added, hmain] at hadded
  obtain ⟨-, hascii, harr, hidle⟩ := hadded
  have hcounted := h.counted ⟨i, hi⟩
  rw [hplace] at hcounted
  obtain ⟨hascii', rfl⟩ := hcounted
  have hle : startOfRange text.length i ≤ startOfRange text.length (i + 1) := by
    rw [startOfRange_succ]
    exact Nat.le_add_right _ _
  have htake := take_append_part hle text
  refine ⟨h.counted, hi, ?_, ?_, hidle⟩
  · rw [← htake]
    exact hascii.append hascii'
  · funext c
    rw [← htake, counts_append, harr]
    exact BitVec.add_assoc _ _ _

theorem mainStep_inv (h : Inv text arr s) (hstep : mainStep text.length s = some s') : Inv text arr s' := by
  rw [mainStep] at hstep
  cases hmain : s.main with
  | create i =>
      simp only [hmain] at hstep
      by_cases hi : i < 4
      · rw [dif_pos hi] at hstep
        obtain rfl := Option.some.inj hstep
        exact h.create hmain hi
      · rw [dif_neg hi] at hstep
        obtain rfl := Option.some.inj hstep
        have hadded := h.added
        simp only [Added, hmain] at hadded
        obtain ⟨-, harr, hidle⟩ := hadded
        refine ⟨h.counted, Nat.zero_le 4, nofun, ?_, fun index hindex => ?_⟩
        · rw [show startOfRange text.length 0 = 0 from Nat.mul_zero _, List.take_zero, counts_nil]
          funext c
          rw [harr]
          exact (BitVec.add_zero _).symm
        · have hle := (hidle index).mp hindex
          omega
  | join i =>
      simp only [hmain] at hstep
      by_cases hi : i < 4
      · rw [dif_pos hi] at hstep
        cases hplace : s.thread ⟨i, hi⟩ with
        | idle | counting _ _ | outside _ =>
            simp only [hplace] at hstep
            cases hstep
        | returned letterCount =>
            simp only [hplace] at hstep
            obtain rfl := Option.some.inj hstep
            exact h.join hmain hi hplace
      · rw [dif_neg hi] at hstep
        cases hstep

/-- **In any run** each thread has counted its letters, and the main thread has added up what was joined. -/
theorem reachable_inv (h : (program block arr).Reachable System.Any s) : Inv (cstr block) arr s := by
  refine System.invariant ?_ ?_ h
  · rintro _ rfl
    exact ⟨fun _ => trivial, Nat.zero_le 4, rfl, fun index => iff_of_true rfl (Nat.zero_le _)⟩
  · rintro s party s' hinv - hstep
    cases party with
    | main => exact mainStep_inv hinv hstep
    | thread index => exact threadStep_inv hinv hstep

/-! ## The end -/

/-- All threads are joined, or one has left its table. -/
def Done (s : State) : Prop := s.main = .join 4 ∨ ∃ index i, s.thread index = .outside i

/-- How many steps a thread has left at most. -/
def turnsLeft (number : Nat) : Place → Nat
  | .idle => number + 2
  | .counting i _ => number + 1 - i
  | .outside _ | .returned _ => 0

def stepsLeft : Main → Nat
  | .create i => 10 - i
  | .join i => 4 - i

def left (number : Nat) (s : State) : Nat := stepsLeft s.main + tally (turnsLeft number) s.thread

/-- A thread that counts goes on. -/
theorem exists_threadStep (h : Inv (cstr block) arr s) {letterCount : Table}
    (hplace : s.thread index = .counting i letterCount) :
    ∃ s', threadStep block (strlen block) s index = some s' ∧ left (strlen block) s' < left (strlen block) s := by
  have hcounted := h.counted index
  rw [hplace] at hcounted
  have hend : startOfRange (strlen block) (index + 1) ≤ strlen block := startOfRange_le index.isLt _
  have hile : i ≤ startOfRange (strlen block) (index + 1) := hcounted.2.1
  have hless : ∀ place, turnsLeft (strlen block) place < strlen block + 1 - i →
      left (strlen block) { s with thread := Function.update s.thread index place } < left (strlen block) s := by
    intro place hlt
    have htally := tally_update (turnsLeft (strlen block)) s.thread index place
    have hturns : turnsLeft (strlen block) (s.thread index) = strlen block + 1 - i := by
      rw [hplace]
      rfl
    have hfewer : tally (turnsLeft (strlen block)) (Function.update s.thread index place) <
        tally (turnsLeft (strlen block)) s.thread := by omega
    exact Nat.add_lt_add_left hfewer (stepsLeft s.main)
  by_cases hlt : i < startOfRange (strlen block) index + rangeOfThread (strlen block)
  · have hi : i < strlen block := by
      rw [← startOfRange_succ] at hlt
      omega
    have hc : block[i]? = some (cstr block)[i] := (getElem?_cstr hi).trans (List.getElem?_eq_getElem hi)
    refine ⟨_, by rw [threadStep]; simp only [hplace, if_pos hlt, hc]; rfl, hless _ ?_⟩
    rw [countLetter]
    split
    · show strlen block + 1 - (i + 1) < _
      omega
    · show 0 < _
      omega
  · refine ⟨_, by rw [threadStep]; simp only [hplace, if_neg hlt]; rfl, hless _ ?_⟩
    show 0 < _
    omega

/-- **The program goes on** until it is done. -/
theorem exists_step (h : Inv (cstr block) arr s) (hnot : ¬ Done s) :
    ∃ party s', step block s party = some s' ∧ left (strlen block) s' < left (strlen block) s := by
  have hadded := h.added
  cases hmain : s.main with
  | create i =>
      simp only [Added, hmain] at hadded
      by_cases hi : i < 4
      · have hidle : s.thread ⟨i, hi⟩ = .idle := (hadded.2.2 ⟨i, hi⟩).mpr (Nat.le_refl i)
        refine ⟨.main, _, by rw [step, mainStep]; simp only [hmain, dif_pos hi]; rfl, ?_⟩
        have htally := tally_update (turnsLeft (strlen block)) s.thread ⟨i, hi⟩
          (.counting (startOfRange (strlen block) i) fun _ => 0)
        rw [hidle] at htally
        simp only [left, hmain, turnsLeft, stepsLeft] at htally ⊢
        omega
      · refine ⟨.main, _, by rw [step, mainStep]; simp only [hmain, dif_neg hi]; rfl, ?_⟩
        simp only [left, hmain, stepsLeft]
        omega
  | join i =>
      simp only [Added, hmain] at hadded
      have hi : i < 4 := Nat.lt_of_le_of_ne hadded.1 fun heq => hnot (.inl (heq ▸ hmain))
      cases hplace : s.thread ⟨i, hi⟩ with
      | idle => exact absurd hplace (hadded.2.2.2 _)
      | counting j letterCount =>
          obtain ⟨s', hstep, hless⟩ := exists_threadStep h hplace
          exact ⟨.thread ⟨i, hi⟩, s', hstep, hless⟩
      | outside index => exact absurd (.inr ⟨_, index, hplace⟩) hnot
      | returned letterCount =>
          refine ⟨.main, _, by rw [step, mainStep]; simp only [hmain, dif_pos hi, hplace]; rfl, ?_⟩
          simp only [left, hmain, stepsLeft]
          omega

/-! ## The totals -/

/-- **The totals are those of the text**, in any order of the threads, and no thread leaves its table. -/
def CountsAll (block : List UInt8) (arr : Table) : Prop :=
  ∀ s, (program block arr).Reachable System.Any s → (∀ index i, s.thread index ≠ .outside i) ∧
    (s.main = .join 4 → s.arr = fun c => arr c + counts (cstr block) c)

/-- **The letters are counted if and only if** four equal ranges are the whole text and none is negative. -/
theorem counts_iff (block : List UInt8) (arr : Table) :
    CountsAll block arr ↔ strlen block % 4 = 0 ∧ Ascii (cstr block) := by
  constructor
  · intro hall
    obtain ⟨s, hs, hdone⟩ := System.exists_end (left (strlen block)) (fun s hs hnot => by
      obtain ⟨party, s', hstep, hless⟩ := exists_step (reachable_inv hs) hnot
      exact ⟨party, s', trivial, hstep, hless⟩) (@System.Reachable.init _ _ (program block arr) System.Any _ rfl)
    obtain ⟨hinside, htotals⟩ := hall s hs
    have hmain : s.main = .join 4 := hdone.resolve_right fun ⟨index, i, hout⟩ => hinside index i hout
    have hadded := (reachable_inv hs).added
    simp only [Added, hmain] at hadded
    obtain ⟨-, hascii, harr, -⟩ := hadded
    have hrest : (cstr block).drop (startOfRange (cstr block).length 4) = [] := by
      have hlength : ((cstr block).drop (startOfRange (cstr block).length 4)).length < 4 := by
        rw [List.length_drop, startOfRange, rangeOfThread, numOfThreads]
        omega
      refine eq_nil_of_counts (by omega) fun c => ?_
      have hsplit := congrFun (counts_append ((cstr block).take (startOfRange (cstr block).length 4))
        ((cstr block).drop (startOfRange (cstr block).length 4))) c
      rw [List.take_append_drop] at hsplit
      have hboth := congrFun ((htotals hmain).symm.trans harr) c
      rw [hsplit, ← BitVec.add_assoc] at hboth
      exact BitVec.add_right_eq_self.mp hboth
    have hlength : (cstr block).length ≤ startOfRange (cstr block).length 4 := List.drop_eq_nil_iff.mp hrest
    refine ⟨?_, List.take_of_length_le hlength ▸ hascii⟩
    rw [startOfRange, rangeOfThread, numOfThreads] at hlength
    show (cstr block).length % 4 = 0
    omega
  · rintro ⟨hlength, hascii⟩ s hs
    have hinv := reachable_inv hs
    refine ⟨fun index i hout => ?_, fun hmain => ?_⟩
    · have hcounted := hinv.counted index
      rw [hout] at hcounted
      exact hcounted hascii
    · have hadded := hinv.added
      simp only [Added, hmain] at hadded
      have hend : startOfRange (cstr block).length 4 = (cstr block).length := by
        rw [startOfRange, rangeOfThread, numOfThreads]
        exact Nat.div_mul_cancel (Nat.dvd_of_mod_eq_zero hlength)
      rw [hadded.2.2.1, hend, List.take_length]

/-- One letter: each range is empty, and the letter is in none. -/
theorem letter_is_not_counted : ¬ CountsAll [97, 0] fun _ => 0 := by
  intro hall
  obtain ⟨s, hs, hend⟩ := System.exists_reachable (fun s => s = ⟨.create 0, fun _ => .idle, fun _ => 0⟩)
    (step [97, 0]) System.Any rfl
    [.main, .main, .main, .main, .main, .thread 0, .thread 1, .thread 2, .thread 3, .main, .main, .main, .main]
    (fun s => (match s.main with | .join 4 => true | _ => false) && s.arr 97 == 0) (by decide)
  obtain ⟨hmain, harr⟩ := Bool.and_eq_true_iff.mp hend
  have hjoined : s.main = .join 4 := by
    split at hmain
    · assumption
    · cases hmain
  have htotal := congrFun ((hall s hs).2 hjoined) 97
  rw [beq_iff_eq.mp harr] at htotal
  exact absurd htotal (by decide)

end Workbench.Text.LetterCount
