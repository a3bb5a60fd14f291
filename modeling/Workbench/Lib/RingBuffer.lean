import Mathlib.Data.List.Rotate
import Mathlib.Data.Nat.ModEq

/-!
# `Lib.RingBuffer` — positions in a ring of slots

A position that only grows is stored in the slot given by its remainder. Two positions in the same slot are a full
round apart. A window is a part of the ring, which may go around the end of the array.

## Main results
* `gap_of_slot_eq` — different positions in one slot;
* `eq_of_slot_eq` — positions of one window are in different slots;
* `slot_succ` — the next slot;
* `window_eq`, `window_drop` — a window in two parts, and its rest;
* `overwriteRing`, `window_overwriteRing` — what is written behind a window, in two parts, makes it longer.
-/

namespace Workbench.RingBuffer

variable {C k l : Nat}

/-- Different positions in one slot are a full round apart. -/
theorem gap_of_slot_eq (h : k < l) (hslot : k % C = l % C) : k + C ≤ l := by
  have hdvd : C ∣ l - k := (Nat.modEq_iff_dvd' (Nat.le_of_lt h)).mp hslot
  have hle : C ≤ l - k := Nat.le_of_dvd (by omega) hdvd
  omega

/-- Positions of one window of `C` positions are in different slots. -/
theorem eq_of_slot_eq (h : k ≤ l) (hlt : l < k + C) (hslot : k % C = l % C) : k = l := by
  by_contra hne
  have hgap : k + C ≤ l := gap_of_slot_eq (by omega) hslot
  omega

theorem slot_succ : (k % C + 1) % C = (k + 1) % C := Nat.mod_add_mod k C 1

/-- The same slot in the next round. -/
theorem slot_round : (k + C) % C = k % C := Nat.add_mod_right k C

/-! ## Windows -/

variable {β : Type} {array xs : List β} {r n m : Nat}

/-- `n` elements from the slot `r` on. -/
def window (array : List β) (r n : Nat) : List β := (array.rotate r).take n

/-- **A window in two parts**: up to the end of the array, and from its begin. -/
theorem window_eq (hr : r ≤ array.length) (hn : n ≤ array.length) :
    window array r n =
      (array.drop r).take (min n (array.length - r)) ++ array.take (n - min n (array.length - r)) := by
  rw [window, List.rotate_eq_drop_append_take hr, List.take_append, List.length_drop]
  congr 1
  · by_cases h : n ≤ array.length - r
    · rw [Nat.min_eq_left h]
    · rw [Nat.min_eq_right (by omega), List.take_of_length_le (by simp; omega), List.take_of_length_le (by simp)]
  · rw [List.take_take]
    congr 1
    omega

/-- The rest of a window. -/
theorem window_drop (hm : m ≤ n) (hn : n ≤ array.length) :
    window array ((r + m) % array.length) (n - m) = (window array r n).drop m := by
  have hlength : m ≤ (array.rotate r).length := by
    rw [List.length_rotate]
    omega
  have hback : n - m - ((array.rotate r).drop m).length = 0 := by
    rw [List.length_drop, List.length_rotate]
    omega
  unfold window
  rw [List.rotate_mod, ← List.rotate_rotate, List.rotate_eq_drop_append_take hlength, List.take_append, hback,
    List.take_zero, List.append_nil, List.drop_take]

/-- The array with other elements in it, from the index `i` on. -/
def overwrite (array : List β) (i : Nat) (xs : List β) : List β :=
  array.take i ++ xs ++ array.drop (i + xs.length)

theorem length_overwrite {i : Nat} (h : i + xs.length ≤ array.length) :
    (overwrite array i xs).length = array.length := by
  simp only [overwrite, List.length_append, List.length_take, List.length_drop]
  omega

/-- What is written in two parts from the begin on. -/
theorem overwrite_append (ys : List β) :
    overwrite (overwrite array 0 xs) xs.length ys = xs ++ ys ++ array.drop (xs.length + ys.length) := by
  unfold overwrite
  rw [List.take_zero, List.nil_append, Nat.zero_add, List.take_left', List.drop_append,
    List.drop_eq_nil_of_le (by omega), List.nil_append, Nat.add_sub_cancel_left, List.drop_drop]
  rfl

/-- Elements that are written from the slot `w` on, in two parts. -/
def overwriteRing (array : List β) (w : Nat) (xs : List β) : List β :=
  overwrite (overwrite array w (xs.take (min xs.length (array.length - w)))) 0
    (xs.drop (min xs.length (array.length - w)))

theorem rotate_append {ys zs : List β} {w : Nat} (h : ys.length = w) : (ys ++ zs).rotate w = zs ++ ys := by
  subst h
  exact List.rotate_append_length_eq ys zs

theorem rotate_overwriteRing {w : Nat} (hw : w ≤ array.length) (hxs : xs.length ≤ array.length) :
    (overwriteRing array w xs).rotate w = xs ++ (array.rotate w).drop xs.length := by
  have htake : (array.take w).length = w := by
    rw [List.length_take]
    omega
  rw [List.rotate_eq_drop_append_take hw]
  unfold overwriteRing
  by_cases h : xs.length ≤ array.length - w
  · -- nothing goes around the end
    rw [Nat.min_eq_left h, List.take_length, List.drop_length]
    have hsecond : overwrite (overwrite array w xs) 0 [] = overwrite array w xs := by simp [overwrite]
    rw [hsecond, overwrite, List.append_assoc, rotate_append htake, List.append_assoc,
      List.drop_append_of_le_length (by simpa using h), List.drop_drop]
  · have hk : min xs.length (array.length - w) = array.length - w := Nat.min_eq_right (by omega)
    generalize hys : xs.take (array.length - w) = ys
    generalize hzs : xs.drop (array.length - w) = zs
    have hparts : xs = ys ++ zs := by rw [← hys, ← hzs, List.take_append_drop]
    have hlengthy : ys.length = array.length - w := by
      rw [← hys, List.length_take]
      omega
    have hlengthz : zs.length ≤ w := by
      rw [← hzs, List.length_drop]
      omega
    have hfirst : overwrite array w ys = array.take w ++ ys := by
      rw [overwrite, List.drop_eq_nil_of_le (by omega), List.append_nil]
    have hsecond : overwrite (array.take w ++ ys) 0 zs = zs ++ (array.take w).drop zs.length ++ ys := by
      rw [overwrite, List.take_zero, List.nil_append, Nat.zero_add,
        List.drop_append_of_le_length (by rw [htake]; exact hlengthz), List.append_assoc]
    have hlength : (zs ++ (array.take w).drop zs.length).length = w := by
      rw [List.length_append, List.length_drop, htake]
      omega
    have hrest : (array.drop w ++ array.take w).drop xs.length = (array.take w).drop zs.length := by
      have hlengthx : xs.length = ys.length + zs.length := by rw [hparts, List.length_append]
      rw [List.drop_append, List.drop_eq_nil_of_le (by rw [List.length_drop]; omega), List.nil_append,
        List.length_drop, hlengthx, hlengthy, Nat.add_sub_cancel_left]
    rw [hk, hys, hzs, hfirst, hsecond, rotate_append hlength, hrest, hparts, List.append_assoc]

theorem length_overwriteRing {w : Nat} (hw : w ≤ array.length) (hxs : xs.length ≤ array.length) :
    (overwriteRing array w xs).length = array.length := by
  have hlength := congrArg List.length (rotate_overwriteRing hw hxs)
  simp only [List.length_rotate, List.length_append, List.length_drop] at hlength
  omega

/-- **What is written behind a window** makes it longer. -/
theorem window_overwriteRing (hr : r < array.length) (hn : n + xs.length ≤ array.length) :
    window (overwriteRing array ((r + n) % array.length) xs) r (n + xs.length) = window array r n ++ xs := by
  have hw : (r + n) % array.length ≤ array.length := Nat.le_of_lt (Nat.mod_lt _ (by omega))
  have hxs : xs.length ≤ array.length := by omega
  have hring := rotate_overwriteRing hw hxs
  have hlength := length_overwriteRing hw hxs
  generalize overwriteRing array ((r + n) % array.length) xs = array' at hring hlength ⊢
  rw [List.rotate_mod, ← List.rotate_rotate] at hring
  have hmod : array'.rotate ((r + n) % array.length) = (array'.rotate r).rotate n := by
    rw [← hlength, List.rotate_mod, List.rotate_rotate]
  rw [hmod] at hring
  -- from the begin of the window on, the ring is the window, what is written, and the rest
  have hlengthr : (array.rotate r).length = array.length := List.length_rotate _ _
  have htake : ((array.rotate r).take n).length = n := by
    rw [List.length_take]
    omega
  have hrotate : (array'.rotate r).rotate n =
      ((array.rotate r).take n ++ (xs ++ (array.rotate r).drop (n + xs.length))).rotate n := by
    rw [rotate_append htake, hring, List.rotate_eq_drop_append_take (by omega),
      List.drop_append_of_le_length (by rw [List.length_drop]; omega), List.drop_drop, List.append_assoc]
  have hwhole := List.rotate_injective n hrotate
  unfold window
  rw [hwhole, ← List.append_assoc]
  exact List.take_left' (by rw [List.length_append, htake])

end Workbench.RingBuffer
