import Mathlib.Data.Char
import Mathlib.Data.List.Lex
import Mathlib.Data.List.TakeWhile
import Mathlib.Data.Prod.Lex
import Workbench.Lib.Comparator
import Workbench.Lib.Decimal

/-!
# `Bios.Versions` — comparing the versions of a BIOS

`compare_bios_versions` cuts the first two components and the last off, and compares what is left component by
component: numbers as numbers, and letters followed by a number by the letters first. A version with fewer components is
official, one with more is custom; an official one is updated to a custom one when what they have in common is equal.

## Main results
* `lowerThan_eq`, `compareLoop_eq` — a component, and the loop, by their keys;
* `compare_preorder` — versions of one shape are in a total preorder;
* `never_downgrades_iff` — when a greater version is not replaced by a smaller one.
-/

namespace Workbench.Bios.Versions

open Decimal (toNat_of_isDigit)

/-! ## `int(...)` and `re.split` on ASCII text -/

/-- The whitespace that `int(...)` passes over. -/
def isIntSpace (c : Char) : Bool := (9 ≤ c.toNat && c.toNat ≤ 13) || c.toNat == 32

def digitValue (c : Char) : Nat := c.toNat - '0'.toNat

/-- The rest of a number: digits, with single underscores between them. -/
def digitsValue : Nat → List Char → Option Nat
  | n, [] => some n
  | n, '_' :: c :: cs => if c.isDigit then digitsValue (10 * n + digitValue c) cs else none
  | n, c :: cs => if c.isDigit then digitsValue (10 * n + digitValue c) cs else none

def unsignedValue : List Char → Option Nat
  | [] => none
  | c :: cs => if c.isDigit then digitsValue (digitValue c) cs else none

/-- `int(s)`; `none` is a `ValueError`. -/
def intOf (s : List Char) : Option Int :=
  match ((s.dropWhile isIntSpace).reverse.dropWhile isIntSpace).reverse with
  | '+' :: cs => (unsignedValue cs).map Int.ofNat
  | '-' :: cs => (unsignedValue cs).map fun n => -Int.ofNat n
  | cs => (unsignedValue cs).map Int.ofNat

/-- `re.split(r'(^[^\d]+)([\d]+)', s)[1:-1]`, when it has two entries. -/
def splitMixed (s : List Char) : Option (List Char × List Char) :=
  let letters := s.takeWhile fun c => !c.isDigit
  let number := (s.dropWhile fun c => !c.isDigit).takeWhile Char.isDigit
  if letters = [] ∨ number = [] then none else some (letters, number)

/-! ## `compare_bios_versions` -/

/-- `lower_than`; `none` is a `ValueError`. -/
def lowerThan (left right : List Char) : Option Bool :=
  match intOf left, intOf right with
  | some l, some r => some (decide (l < r))
  | _, _ => do
      let (leftStr, leftNum) ← splitMixed left
      let (rightStr, rightNum) ← splitMixed right
      if leftStr < rightStr then some true
      else if leftStr = rightStr then do
        let l ← intOf leftNum
        let r ← intOf rightNum
        some (decide (l < r))
      else some false

/-- `version.split('.')`. -/
def components (version : String) : List (List Char) := version.toList.splitOn '.'

/-- `version.split('.')[2:-1]`. -/
def comparedComponents (version : String) : List (List Char) := ((components version).drop 2).dropLast

/-- The loop over the components that both have. -/
def compareLoop (rc : Int) : List (List Char) → List (List Char) → Option Int
  | c :: current, n :: new => do
      if ← lowerThan c n then some 1
      else if ← lowerThan n c then some (-1)
      else compareLoop rc current new
  | _, _ => some rc

/-- `compare_bios_versions`, with or without the file that forces an update. The outer `none` is a `ValueError`, the
    inner one is `None`. -/
def compareBiosVersions (forceUpdate : Bool) (currentVersion newVersion : String) : Option (Option Int) :=
  if forceUpdate then some (some 1)
  else
    let current := comparedComponents currentVersion
    let new := comparedComponents newVersion
    let rc := if current.length < new.length then 1 else 0
    if current.length ≤ new.length then (compareLoop rc current new).map some else some none

/-! ## Components and their keys -/

/-- A component is a number, or letters followed by a number. -/
inductive Kind where
  | digits
  | mixed
  deriving DecidableEq

def isNumber (s : List Char) : Bool := !s.isEmpty && s.all Char.isDigit

def kindOf (s : List Char) : Option Kind :=
  if isNumber s then some .digits
  else if !(s.takeWhile Char.isAlpha).isEmpty && isNumber (s.dropWhile Char.isAlpha) then some .mixed
  else none

def numberOf (s : List Char) : Nat := s.foldl (fun n c => 10 * n + digitValue c) 0

/-- What a component is compared by: the letters, then the number. -/
def keyOf (s : List Char) : List Char ×ₗ Nat :=
  toLex (s.takeWhile fun c => !c.isDigit, numberOf (s.dropWhile fun c => !c.isDigit))

/-- Two components of one kind. -/
def SameKind (s t : List Char) : Prop := kindOf s ≠ none ∧ kindOf s = kindOf t

variable {s t letters number : List Char}

/-! ## Characters -/

theorem toNat_of_isAlpha {c : Char} (h : c.isAlpha = true) : 65 ≤ c.toNat ∧ c.toNat ≤ 122 := by
  have hcases : (65 ≤ c.val ∧ c.val ≤ 90) ∨ 97 ≤ c.val ∧ c.val ≤ 122 := by
    rcases Bool.or_eq_true_iff.mp h with hupper | hlower
    · exact Or.inl (of_decide_eq_true hupper)
    · obtain ⟨hlow, hhigh⟩ := Bool.and_eq_true_iff.mp hlower
      exact Or.inr ⟨of_decide_eq_true hlow, of_decide_eq_true hhigh⟩
  simp only [UInt32.le_iff_toNat_le] at hcases
  rcases hcases with ⟨hlow, hhigh⟩ | ⟨hlow, hhigh⟩
  · exact ⟨hlow, hhigh.trans (by decide)⟩
  · exact ⟨le_trans (by decide) hlow, hhigh⟩

theorem not_isDigit_of_isAlpha {c : Char} (h : c.isAlpha = true) : c.isDigit = false := by
  by_contra hdigit
  have halpha := toNat_of_isAlpha h
  have hrange := toNat_of_isDigit (Bool.not_eq_false _ ▸ hdigit)
  omega

/-- A digit or a letter is not whitespace. -/
theorem not_isIntSpace {c : Char} (h : 48 ≤ c.toNat) : isIntSpace c = false := by
  simp only [isIntSpace, Bool.or_eq_false_iff, Bool.and_eq_false_iff, decide_eq_false_iff_not, beq_eq_false_iff_ne]
  omega

/-! ## Numbers -/

theorem isNumber_iff : isNumber s = true ↔ s ≠ [] ∧ ∀ c ∈ s, c.isDigit = true := by
  simp [isNumber]

theorem digitsValue_eq (h : ∀ c ∈ s, c.isDigit = true) (n : Nat) :
    digitsValue n s = some (s.foldl (fun n c => 10 * n + digitValue c) n) := by
  induction s generalizing n with
  | nil => rfl
  | cons c s ih =>
      have hdigit := h c List.mem_cons_self
      have hscore : c ≠ '_' := by
        rintro rfl
        exact absurd hdigit (by decide)
      rw [digitsValue.eq_3 _ _ _ (fun c' cs heq _ => hscore heq), if_pos hdigit, List.foldl_cons]
      exact ih (fun c' hc' => h c' (List.mem_cons_of_mem _ hc')) _

theorem unsignedValue_eq (h : isNumber s = true) : unsignedValue s = some (numberOf s) := by
  obtain ⟨hne, hdigits⟩ := isNumber_iff.mp h
  cases s with
  | nil => exact absurd rfl hne
  | cons c s =>
      rw [unsignedValue, if_pos (hdigits c List.mem_cons_self),
        digitsValue_eq fun c' hc' => hdigits c' (List.mem_cons_of_mem _ hc')]
      simp [numberOf]

/-- Without whitespace there is nothing to strip. -/
theorem strip_eq (h : ∀ c ∈ s, isIntSpace c = false) :
    ((s.dropWhile isIntSpace).reverse.dropWhile isIntSpace).reverse = s := by
  have hdrop : ∀ s : List Char, (∀ c ∈ s, isIntSpace c = false) → s.dropWhile isIntSpace = s := by
    intro s h
    cases s with
    | nil => rfl
    | cons c s => rw [List.dropWhile_cons_of_neg (by simp [h c List.mem_cons_self])]
  rw [hdrop s h, hdrop s.reverse fun c hc => h c (List.mem_reverse.mp hc), List.reverse_reverse]

/-- `int(...)` of text without whitespace and without a sign. -/
theorem intOf_eq (h : ∀ c ∈ s, 48 ≤ c.toNat) : intOf s = (unsignedValue s).map Int.ofNat := by
  rw [intOf, strip_eq fun c hc => not_isIntSpace (h c hc)]
  split
  · exact absurd (h '+' List.mem_cons_self) (by decide)
  · exact absurd (h '-' List.mem_cons_self) (by decide)
  · rfl

theorem intOf_number (h : isNumber s = true) : intOf s = some (numberOf s : Int) := by
  rw [intOf_eq fun c hc => (toNat_of_isDigit ((isNumber_iff.mp h).2 c hc)).1, unsignedValue_eq h]
  rfl

/-! ## Letters and a number -/

/-- Letters, and a number behind them. -/
structure IsMixed (letters number : List Char) : Prop where
  ne_nil : letters ≠ []
  alpha : ∀ c ∈ letters, c.isAlpha = true
  number : isNumber number = true

theorem isMixed_of_kindOf (h : kindOf s = some .mixed) : ∃ letters number, s = letters ++ number ∧
    IsMixed letters number := by
  unfold kindOf at h
  by_cases hnumber : isNumber s
  · rw [if_pos hnumber] at h
    cases h
  by_cases hmixed : !(s.takeWhile Char.isAlpha).isEmpty && isNumber (s.dropWhile Char.isAlpha)
  swap
  · rw [if_neg hnumber, if_neg hmixed] at h
    cases h
  simp only [Bool.and_eq_true, Bool.not_eq_true', List.isEmpty_eq_false_iff] at hmixed
  exact ⟨_, _, List.takeWhile_append_dropWhile.symm, hmixed.1, fun c hc => List.mem_takeWhile_imp hc, hmixed.2⟩

theorem isNumber_of_kindOf (h : kindOf s = some .digits) : isNumber s = true := by
  unfold kindOf at h
  by_contra hnumber
  rw [if_neg hnumber] at h
  split at h
  · cases h
  · cases h

namespace IsMixed

/-- `int(...)` raises. -/
theorem intOf_eq_none (h : IsMixed letters number) : intOf (letters ++ number) = none := by
  rw [intOf_eq]
  · cases letters with
    | nil => exact absurd rfl h.ne_nil
    | cons c letters =>
        have hdigit := not_isDigit_of_isAlpha (h.alpha c List.mem_cons_self)
        rw [List.cons_append, unsignedValue, if_neg (by simp [hdigit])]
        rfl
  · intro c hc
    rcases List.mem_append.mp hc with hc | hc
    · exact le_trans (by decide) (toNat_of_isAlpha (h.alpha c hc)).1
    · exact (toNat_of_isDigit ((isNumber_iff.mp h.number).2 c hc)).1

theorem takeWhile_eq (h : IsMixed letters number) :
    ((letters ++ number).takeWhile fun c => !c.isDigit) = letters := by
  obtain ⟨hne, hdigits⟩ := isNumber_iff.mp h.number
  rw [List.takeWhile_append_of_pos fun c hc => by simp [not_isDigit_of_isAlpha (h.alpha c hc)]]
  cases hnumber : number with
  | nil => exact absurd hnumber hne
  | cons c rest =>
      rw [List.takeWhile_cons_of_neg (by simp [hdigits c (hnumber ▸ List.mem_cons_self)]), List.append_nil]

theorem dropWhile_eq (h : IsMixed letters number) :
    ((letters ++ number).dropWhile fun c => !c.isDigit) = number := by
  obtain ⟨hne, hdigits⟩ := isNumber_iff.mp h.number
  rw [List.dropWhile_append_of_pos fun c hc => by simp [not_isDigit_of_isAlpha (h.alpha c hc)]]
  cases hnumber : number with
  | nil => exact absurd hnumber hne
  | cons c rest => rw [List.dropWhile_cons_of_neg (by simp [hdigits c (hnumber ▸ List.mem_cons_self)])]

theorem splitMixed_eq (h : IsMixed letters number) : splitMixed (letters ++ number) = some (letters, number) := by
  obtain ⟨hne, hdigits⟩ := isNumber_iff.mp h.number
  have hwhole : number.takeWhile Char.isDigit = number := List.takeWhile_eq_self_iff.mpr hdigits
  unfold splitMixed
  simp only [h.takeWhile_eq, h.dropWhile_eq, hwhole, h.ne_nil, hne, or_self, if_false]

theorem keyOf_eq (h : IsMixed letters number) : keyOf (letters ++ number) = toLex (letters, numberOf number) := by
  rw [keyOf, h.takeWhile_eq, h.dropWhile_eq]

end IsMixed

theorem keyOf_number (h : isNumber s = true) : keyOf s = toLex ([], numberOf s) := by
  obtain ⟨hne, hdigits⟩ := isNumber_iff.mp h
  cases s with
  | nil => exact absurd rfl hne
  | cons c s =>
      have hdigit := hdigits c List.mem_cons_self
      rw [keyOf, List.takeWhile_cons_of_neg (by simp [hdigit]), List.dropWhile_cons_of_neg (by simp [hdigit])]

/-! ## One component -/

/-- **A component is lower** when its key is. Two components of one kind never raise. -/
theorem lowerThan_eq (h : SameKind s t) : lowerThan s t = some (decide (keyOf s < keyOf t)) := by
  obtain ⟨hs, hkind⟩ := h
  obtain ⟨kind, hs⟩ := Option.ne_none_iff_exists'.mp hs
  rw [hs] at hkind
  cases kind with
  | digits =>
      have hs := isNumber_of_kindOf hs
      have ht := isNumber_of_kindOf hkind.symm
      rw [lowerThan, intOf_number hs, intOf_number ht, keyOf_number hs, keyOf_number ht]
      simp [Prod.Lex.lt_iff]
  | mixed =>
      obtain ⟨letters, number, rfl, hleft⟩ := isMixed_of_kindOf hs
      obtain ⟨letters', number', rfl, hright⟩ := isMixed_of_kindOf hkind.symm
      rw [lowerThan, hleft.intOf_eq_none, hleft.splitMixed_eq, hright.splitMixed_eq, hleft.keyOf_eq, hright.keyOf_eq]
      by_cases hlt : letters < letters'
      · simp [Prod.Lex.lt_iff, hlt]
      · by_cases heq : letters = letters'
        · simp [Prod.Lex.lt_iff, heq, intOf_number hleft.number, intOf_number hright.number]
        · simp [Prod.Lex.lt_iff, hlt, heq]

theorem sameKind_symm (h : SameKind s t) : SameKind t s := ⟨h.2 ▸ h.1, h.2.symm⟩

/-! ## The loop -/

/-- One kind at each position that both have. -/
def SameKinds (xs ys : List (List Char)) : Prop :=
  ∀ (i : Nat) (c n : List Char), xs[i]? = some c → ys[i]? = some n → SameKind c n

variable {current new : List (List Char)} {c n : List Char} {rc : Int}

theorem sameKinds_of_zip (h : ∀ e ∈ current.zip new, SameKind e.1 e.2) : SameKinds current new :=
  fun i c n hc hn => h (c, n) (List.mem_iff_getElem?.mpr ⟨i, List.getElem?_zip_eq_some.mpr ⟨hc, hn⟩⟩)

theorem SameKinds.tail (h : SameKinds (c :: current) (n :: new)) : SameKinds current new :=
  fun i c' n' hc hn => h (i + 1) c' n' hc hn

/-- **One turn of the loop.** -/
theorem compareLoop_cons (h : SameKind c n) : compareLoop rc (c :: current) (n :: new) =
    if keyOf c < keyOf n then some 1 else if keyOf n < keyOf c then some (-1) else compareLoop rc current new := by
  rw [compareLoop, lowerThan_eq h, lowerThan_eq (sameKind_symm h)]
  by_cases hlt : keyOf c < keyOf n
  · simp [hlt]
  · by_cases hgt : keyOf n < keyOf c
    · simp [hlt, hgt]
    · simp [hlt, hgt]

/-- **The loop over lists of one length** compares their keys. -/
theorem compareLoop_eq (hlen : current.length = new.length) (h : SameKinds current new) :
    compareLoop 0 current new =
      some ((Comparator.byKey (List.map keyOf)).compare new current) := by
  induction current generalizing new with
  | nil =>
      obtain rfl := List.eq_nil_of_length_eq_zero hlen.symm
      exact congrArg some (Comparator.byKey_of_eq rfl).symm
  | cons c current ih =>
      cases new with
      | nil => cases hlen
      | cons n new =>
          rw [compareLoop_cons (h 0 c n rfl rfl)]
          by_cases hlt : keyOf c < keyOf n
          · rw [if_pos hlt]
            exact congrArg some (Comparator.byKey_of_gt (List.cons_lt_cons_iff.mpr (Or.inl hlt))).symm
          · rw [if_neg hlt]
            by_cases hgt : keyOf n < keyOf c
            · rw [if_pos hgt]
              exact congrArg some (Comparator.byKey_of_lt (List.cons_lt_cons_iff.mpr (Or.inl hgt))).symm
            · have heq : keyOf c = keyOf n := le_antisymm (not_lt.mp hgt) (not_lt.mp hlt)
              rw [if_neg hgt, ih (Nat.succ.inj hlen) h.tail]
              refine congrArg some (Comparator.byKey_congr ?_ ?_)
              · simp only [List.map_cons, List.cons_lt_cons_iff, heq, lt_irrefl, false_or, true_and]
              · simp only [List.map_cons, List.cons_lt_cons_iff, heq, lt_irrefl, false_or, true_and]

/-- The first difference decides. -/
theorem compareLoop_of_greater (h : SameKinds current new) {i : Nat} (hc : current[i]? = some c)
    (hn : new[i]? = some n) (hgt : keyOf n < keyOf c)
    (heq : ∀ j < i, ∀ c n, current[j]? = some c → new[j]? = some n → keyOf c = keyOf n) :
    compareLoop rc current new = some (-1) := by
  induction current generalizing new i with
  | nil => cases hc
  | cons c' current ih =>
      cases new with
      | nil => cases hn
      | cons n' new =>
          rw [compareLoop_cons (h 0 c' n' rfl rfl)]
          cases i with
          | zero =>
              obtain rfl := Option.some.inj hc
              obtain rfl := Option.some.inj hn
              rw [if_neg hgt.not_gt, if_pos hgt]
          | succ i =>
              have hfirst := heq 0 (Nat.succ_pos i) c' n' rfl rfl
              rw [hfirst, if_neg (lt_irrefl _), if_neg (lt_irrefl _)]
              exact ih h.tail hc hn fun j hj => heq (j + 1) (Nat.succ_lt_succ hj)

/-- Without a difference the result is the one there was before the loop. -/
theorem compareLoop_of_equal (h : SameKinds current new)
    (heq : ∀ (i : Nat) (c n : List Char), current[i]? = some c → new[i]? = some n → keyOf c = keyOf n) :
    compareLoop rc current new = some rc := by
  induction current generalizing new with
  | nil => rfl
  | cons c' current ih =>
      cases new with
      | nil => rfl
      | cons n' new =>
          rw [compareLoop_cons (h 0 c' n' rfl rfl), heq 0 c' n' rfl rfl, if_neg (lt_irrefl _), if_neg (lt_irrefl _)]
          exact ih h.tail fun i => heq (i + 1)

/-! ## Versions of one shape -/

section

variable {versions : Set String} {a b d : String}

/-- Versions with the same number of components, and with one kind of component at each position that is looked at. -/
def Alike (versions : Set String) : Prop :=
  ∀ a ∈ versions, ∀ b ∈ versions, (components a).length = (components b).length ∧
    SameKinds ((components a).drop 2) ((components b).drop 2)

/-- What a version is compared by. -/
def versionKey (version : String) : List (List Char ×ₗ Nat) := (comparedComponents version).map keyOf

theorem length_comparedComponents (version : String) :
    (comparedComponents version).length = (components version).length - 3 := by
  rw [comparedComponents, List.length_dropLast, List.length_drop]
  omega

/-- The components that are compared, by their places in the version. -/
theorem getElem?_comparedComponents {version : String} {i : Nat} {c : List Char}
    (h : (comparedComponents version)[i]? = some c) : (components version)[i + 2]? = some c := by
  rw [comparedComponents, List.getElem?_dropLast] at h
  split at h
  · rwa [List.getElem?_drop, Nat.add_comm] at h
  · cases h

theorem sameKinds_compared (h : SameKinds ((components a).drop 2) ((components b).drop 2)) :
    SameKinds (comparedComponents a) (comparedComponents b) := by
  intro i c n hc hn
  refine h i c n ?_ ?_
  · rw [List.getElem?_drop, Nat.add_comm, getElem?_comparedComponents hc]
  · rw [List.getElem?_drop, Nat.add_comm, getElem?_comparedComponents hn]

/-- Versions of one shape are compared by their keys. -/
theorem compareBiosVersions_alike (h : Alike versions) (ha : a ∈ versions) (hb : b ∈ versions) :
    compareBiosVersions false a b = some (some ((Comparator.byKey versionKey).compare b a)) := by
  obtain ⟨hlen, hkinds⟩ := h a ha b hb
  have hcompared : (comparedComponents a).length = (comparedComponents b).length := by
    rw [length_comparedComponents, length_comparedComponents, hlen]
  unfold compareBiosVersions
  simp only [hcompared, lt_irrefl, le_refl, if_true, if_false, Bool.false_eq_true]
  rw [compareLoop_eq hcompared (sameKinds_compared hkinds)]
  rfl

theorem updates_iff (h : Alike versions) (ha : a ∈ versions) (hb : b ∈ versions) :
    compareBiosVersions false a b = some (some 1) ↔ versionKey a < versionKey b := by
  rw [compareBiosVersions_alike h ha hb, Option.some.injEq, Option.some.injEq, Comparator.byKey_eq_one_iff]

theorem downgrades_iff (h : Alike versions) (ha : a ∈ versions) (hb : b ∈ versions) :
    compareBiosVersions false a b = some (some (-1)) ↔ versionKey b < versionKey a := by
  rw [compareBiosVersions_alike h ha hb, Option.some.injEq, Option.some.injEq, Comparator.byKey_eq_neg_one_iff]

theorem equals_iff (h : Alike versions) (ha : a ∈ versions) (hb : b ∈ versions) :
    compareBiosVersions false a b = some (some 0) ↔ versionKey a = versionKey b := by
  rw [compareBiosVersions_alike h ha hb, Option.some.injEq, Option.some.injEq, Comparator.byKey_eq_zero_iff, eq_comm]

/-- `a` is not above `b`. -/
def AtMost (a b : String) : Prop :=
  compareBiosVersions false a b = some (some 1) ∨ compareBiosVersions false a b = some (some 0)

theorem atMost_iff (h : Alike versions) (ha : a ∈ versions) (hb : b ∈ versions) :
    AtMost a b ↔ versionKey a ≤ versionKey b := by
  rw [AtMost, updates_iff h ha hb, equals_iff h ha hb, le_iff_lt_or_eq]

/-- **A total preorder** on a set of versions. -/
structure TotalPreorder (versions : Set String) : Prop where
  returns : ∀ a ∈ versions, ∀ b ∈ versions, ∃ rc, compareBiosVersions false a b = some (some rc) ∧
    (rc = 1 ∨ rc = 0 ∨ rc = -1)
  swap : ∀ a ∈ versions, ∀ b ∈ versions,
    compareBiosVersions false a b = some (some 1) ↔ compareBiosVersions false b a = some (some (-1))
  zero_refl : ∀ a ∈ versions, compareBiosVersions false a a = some (some 0)
  zero_symm : ∀ a ∈ versions, ∀ b ∈ versions, compareBiosVersions false a b = some (some 0) →
    compareBiosVersions false b a = some (some 0)
  zero_trans : ∀ a ∈ versions, ∀ b ∈ versions, ∀ d ∈ versions, compareBiosVersions false a b = some (some 0) →
    compareBiosVersions false b d = some (some 0) → compareBiosVersions false a d = some (some 0)
  one_trans : ∀ a ∈ versions, ∀ b ∈ versions, ∀ d ∈ versions, compareBiosVersions false a b = some (some 1) →
    compareBiosVersions false b d = some (some 1) → compareBiosVersions false a d = some (some 1)
  total : ∀ a ∈ versions, ∀ b ∈ versions, AtMost a b ∨ AtMost b a
  trans : ∀ a ∈ versions, ∀ b ∈ versions, ∀ d ∈ versions, AtMost a b → AtMost b d → AtMost a d

/-- **The comparison is a total preorder** on versions of one shape. -/
theorem compare_preorder (versions : Set String) (h : Alike versions) : TotalPreorder versions where
  returns a ha b hb := by
    refine ⟨_, compareBiosVersions_alike h ha hb, ?_⟩
    rcases lt_trichotomy (versionKey b) (versionKey a) with hlt | heq | hgt
    · exact Or.inr (Or.inr (Comparator.byKey_of_lt hlt))
    · exact Or.inr (Or.inl (Comparator.byKey_of_eq heq))
    · exact Or.inl (Comparator.byKey_of_gt hgt)
  swap a ha b hb := by rw [updates_iff h ha hb, downgrades_iff h hb ha]
  zero_refl a ha := (equals_iff h ha ha).mpr rfl
  zero_symm a ha b hb hab := by
    rw [equals_iff h ha hb] at hab
    rw [equals_iff h hb ha, hab]
  zero_trans a ha b hb d hd hab hbd := by
    rw [equals_iff h ha hb] at hab
    rw [equals_iff h hb hd] at hbd
    rw [equals_iff h ha hd, hab, hbd]
  one_trans a ha b hb d hd hab hbd := by
    rw [updates_iff h ha hb] at hab
    rw [updates_iff h hb hd] at hbd
    rw [updates_iff h ha hd]
    exact hab.trans hbd
  total a ha b hb := by
    rw [atMost_iff h ha hb, atMost_iff h hb ha]
    exact le_total _ _
  trans a ha b hb d hd hab hbd := by
    rw [atMost_iff h ha hb] at hab
    rw [atMost_iff h hb hd] at hbd
    rw [atMost_iff h ha hd]
    exact hab.trans hbd

/-- Versions of the boards. -/
def sampleVersions : List String :=
  ["SE5C620.86B.02.01.0013.C0003.121520200651", "SE5C620.86B.02.01.0017.C0013.110620230543",
    "SE5C610.86B.01.01.0028.C9.121720182203"]

theorem sampleVersions_preorder : TotalPreorder {version | version ∈ sampleVersions} := by
  have hlen : ∀ a ∈ sampleVersions, ∀ b ∈ sampleVersions, (components a).length = (components b).length := by decide
  have hkinds : ∀ a ∈ sampleVersions, ∀ b ∈ sampleVersions,
      ∀ e ∈ ((components a).drop 2).zip ((components b).drop 2), SameKind e.1 e.2 := by
    unfold SameKind
    decide
  exact compare_preorder _ fun a ha b hb => ⟨hlen a ha b hb, sameKinds_of_zip (hkinds a ha b hb)⟩

end

/-! ## Downgrades -/

section

variable {a b : String} {j : Nat}

/-- The first difference after the first two components is at `j`, and there `a` is greater. -/
structure GreaterAt (a b : String) (j : Nat) : Prop where
  two_le : 2 ≤ j
  greater : ∃ c n, (components a)[j]? = some c ∧ (components b)[j]? = some n ∧ keyOf n < keyOf c
  equal : ∀ (i : Nat) (c n : List Char), 2 ≤ i → i < j → (components a)[i]? = some c →
    (components b)[i]? = some n → keyOf c = keyOf n

/-- The components of two versions are of one kind where both have one, after the first two. -/
def Comparable (a b : String) : Prop := SameKinds ((components a).drop 2) ((components b).drop 2)

theorem GreaterAt.lt_length (h : GreaterAt a b j) : j < (components a).length ∧ j < (components b).length := by
  obtain ⟨c, n, hc, hn, -⟩ := h.greater
  exact ⟨(List.getElem?_eq_some_iff.mp hc).1, (List.getElem?_eq_some_iff.mp hn).1⟩

/-- The equal components before the difference, by their places in what is compared. -/
theorem GreaterAt.equal_compared (h : GreaterAt a b j) {i : Nat} (hi : i + 2 < j) {c n : List Char}
    (hc : (comparedComponents a)[i]? = some c) (hn : (comparedComponents b)[i]? = some n) : keyOf c = keyOf n :=
  h.equal (i + 2) c n (Nat.le_add_left 2 i) hi (getElem?_comparedComponents hc) (getElem?_comparedComponents hn)

theorem comparedComponents_of_lt {version : String} {c : List Char} (htwo : 2 ≤ j)
    (hlast : j + 1 < (components version).length) (hc : (components version)[j]? = some c) :
    (comparedComponents version)[j - 2]? = some c := by
  rw [comparedComponents, List.getElem?_dropLast, List.length_drop, if_pos (by omega), List.getElem?_drop,
    show 2 + (j - 2) = j by omega, hc]

theorem compareBiosVersions_of_le (h : (components a).length ≤ (components b).length) :
    compareBiosVersions false a b =
      (compareLoop (if (comparedComponents a).length < (comparedComponents b).length then 1 else 0)
        (comparedComponents a) (comparedComponents b)).map some := by
  have hle : (comparedComponents a).length ≤ (comparedComponents b).length := by
    rw [length_comparedComponents, length_comparedComponents]
    omega
  unfold compareBiosVersions
  rw [if_neg Bool.false_ne_true]
  exact if_pos hle

/-- A difference before the last component is seen. -/
theorem downgrades_of_inner (hkinds : Comparable a b) (h : GreaterAt a b j)
    (hle : (components a).length ≤ (components b).length) (hlast : j + 1 < (components a).length) :
    compareBiosVersions false a b = some (some (-1)) := by
  obtain ⟨c, n, hc, hn, hgt⟩ := h.greater
  have hloop (rc : Int) : compareLoop rc (comparedComponents a) (comparedComponents b) = some (-1) :=
    compareLoop_of_greater (sameKinds_compared hkinds) (comparedComponents_of_lt h.two_le hlast hc)
      (comparedComponents_of_lt h.two_le (by omega) hn) hgt fun i hi c n hc hn => h.equal_compared (by omega) hc hn
  rw [compareBiosVersions_of_le hle, hloop]
  rfl

/-- A difference in the last component of the current version is cut off. -/
theorem compareBiosVersions_of_last (hkinds : Comparable a b) (h : GreaterAt a b j)
    (hle : (components a).length ≤ (components b).length) (hlast : j + 1 = (components a).length) :
    compareBiosVersions false a b =
      some (some (if (components a).length < (components b).length then 1 else 0)) := by
  have hequal : ∀ (i : Nat) (c n : List Char), (comparedComponents a)[i]? = some c →
      (comparedComponents b)[i]? = some n → keyOf c = keyOf n := by
    intro i c n hc hn
    have hi := (List.getElem?_eq_some_iff.mp hc).1
    rw [length_comparedComponents] at hi
    exact h.equal_compared (by omega) hc hn
  rw [compareBiosVersions_of_le hle, compareLoop_of_equal (sameKinds_compared hkinds) hequal,
    length_comparedComponents, length_comparedComponents]
  have htwo := h.two_le
  have hiff : (components a).length - 3 < (components b).length - 3 ↔
      (components a).length < (components b).length := by omega
  simp only [hiff, Option.map_some]

/-- With more components in the current version there is no result. -/
theorem compareBiosVersions_of_longer (h : GreaterAt a b j) (hlt : (components b).length < (components a).length) :
    compareBiosVersions false a b = some none := by
  have htwo := h.two_le
  have hlength := h.lt_length.2
  have hnot : ¬ (comparedComponents a).length ≤ (comparedComponents b).length := by
    rw [length_comparedComponents, length_comparedComponents]
    omega
  unfold compareBiosVersions
  rw [if_neg Bool.false_ne_true]
  exact if_neg hnot

/-- **When a greater version is not replaced by a smaller one**: unless the current version has fewer components than
    the new one, and its last is where they first differ. -/
theorem never_downgrades_iff (hkinds : Comparable a b) :
    (∀ j, GreaterAt a b j → compareBiosVersions false a b ≠ some (some 1)) ↔
      ¬ ((components a).length < (components b).length ∧ GreaterAt a b ((components a).length - 1)) := by
  constructor
  · rintro h ⟨hlt, hgreater⟩
    have hlength := hgreater.lt_length.1
    apply h _ hgreater
    rw [compareBiosVersions_of_last hkinds hgreater hlt.le (by omega), if_pos hlt]
  · intro h j hgreater
    have hlength := hgreater.lt_length.1
    rcases lt_or_ge (components b).length (components a).length with hlonger | hle
    · rw [compareBiosVersions_of_longer hgreater hlonger]
      simp
    · by_cases hlast : j + 1 = (components a).length
      · have hj : (components a).length - 1 = j := by omega
        rw [compareBiosVersions_of_last hkinds hgreater hle hlast,
          if_neg fun hlt => h ⟨hlt, hj.symm ▸ hgreater⟩]
        simp
      · rw [downgrades_of_inner hkinds hgreater hle (by omega)]
        simp

/-- A difference in the middle is seen. -/
theorem never_downgrades_sample :
    compareBiosVersions false "SE5C741.86B.01.02.0001" "SE5C741.86B.01.01.0008.1" ≠ some (some 1) := by
  have hgreater : GreaterAt "SE5C741.86B.01.02.0001" "SE5C741.86B.01.01.0008.1" 3 := by
    refine ⟨by decide, ⟨"02".toList, "01".toList, by decide, by decide, by decide⟩, ?_⟩
    intro i c n htwo hi hc hn
    obtain rfl : i = 2 := by omega
    cases hc.symm.trans (show _ = some "01".toList by decide)
    cases hn.symm.trans (show _ = some "01".toList by decide)
    rfl
  refine (never_downgrades_iff (sameKinds_of_zip ?_)).mpr ?_ 3 hgreater
  · unfold SameKind
    decide
  · rintro ⟨-, h⟩
    exact absurd (h.equal 3 "02".toList "01".toList (by decide) (by decide) (by decide) (by decide)) (by decide)

/-- Release 5 of a version is replaced by the custom build of release 1. -/
theorem downgrades_wrong : GreaterAt "SE5C741.86B.01.02.0005" "SE5C741.86B.01.02.0001.2401260138" 4 ∧
    Comparable "SE5C741.86B.01.02.0005" "SE5C741.86B.01.02.0001.2401260138" ∧
    compareBiosVersions false "SE5C741.86B.01.02.0005" "SE5C741.86B.01.02.0001.2401260138" = some (some 1) := by
  refine ⟨⟨by decide, ⟨"0005".toList, "0001".toList, by decide, by decide, by decide⟩, ?_⟩, sameKinds_of_zip ?_,
    by decide⟩
  · intro i c n htwo hi hc hn
    obtain rfl | rfl : i = 2 ∨ i = 3 := by omega
    · cases hc.symm.trans (show _ = some "01".toList by decide)
      cases hn.symm.trans (show _ = some "01".toList by decide)
      rfl
    · cases hc.symm.trans (show _ = some "02".toList by decide)
      cases hn.symm.trans (show _ = some "02".toList by decide)
      rfl
  · unfold SameKind
    decide

end

end Workbench.Bios.Versions
