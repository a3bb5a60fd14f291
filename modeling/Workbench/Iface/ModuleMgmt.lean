import Workbench.Iface.Spa

/-!
# `Iface.ModuleMgmt` — the OLTs of a module, in `apply_module_mgmt`

The loop puts the specs of the `olt-control`s into the list of OLTs of a module, and deletes the OLTs that failed. It
deletes from the list that it is going through, so the OLT behind a deleted one is passed over.

## Main results
* `mergeOlts_eq` — what the loop makes of the list;
* `mergeOlts_iff` — when that is what it should make of it.
-/

namespace Workbench.ModuleMgmt

open Iface (OltKey)

/-- An entry of the list `olt`: the key, and the rest of the entry. -/
structure OltSpec where
  key : OltKey
  rest : String
  deriving DecidableEq

/-- The `olt-control`s by name, each with its one OLT. -/
abbrev OltControls := List (String × OltSpec)

/-! ## The loop -/

/-- The inner loop, over the `olt-control`s. `none` is an `IndexError`. -/
def mergeOlt (failed : List String) (i : Nat) (mmOlt : OltSpec) : OltControls → List OltSpec → Option (List OltSpec)
  | [], olts => some olts
  | (oltControl, spec) :: controls, olts =>
      if mmOlt.key = spec.key then
        if i < olts.length then
          mergeOlt failed i mmOlt controls (if oltControl ∈ failed then olts.eraseIdx i else olts.set i spec)
        else none
      else mergeOlt failed i mmOlt controls olts

/-- `for i, mm_olt_spec in enumerate(module_mgmt_olts)`: the list is read anew at each index. -/
def mergeLoop (controls : OltControls) (failed : List String) : Nat → Nat → List OltSpec → Option (List OltSpec)
  | 0, _, _ => none
  | turns + 1, i, olts =>
      match olts[i]? with
      | none => some olts
      | some mmOlt => do
          let olts ← mergeOlt failed i mmOlt controls olts
          mergeLoop controls failed turns (i + 1) olts

/-- The loop does not make the list longer, so there is a turn for each index and one for the end. -/
def mergeOlts (controls : OltControls) (failed : List String) (olts : List OltSpec) : Option (List OltSpec) :=
  mergeLoop controls failed (olts.length + 1) 0 olts

/-! ## What it does, and what it should do -/

/-- The `olt-control` of an OLT. -/
def controlOf (controls : OltControls) (olt : OltSpec) : Option (String × OltSpec) :=
  controls.find? fun e => decide (olt.key = e.2.key)

def isFailed (controls : OltControls) (failed : List String) (olt : OltSpec) : Bool :=
  (controlOf controls olt).any fun e => decide (e.1 ∈ failed)

/-- The spec of its `olt-control`, if there is one. -/
def updated (controls : OltControls) (olt : OltSpec) : OltSpec :=
  match controlOf controls olt with
  | none => olt
  | some e => e.2

/-- **What the list should become**: without the OLTs that failed, and with the specs of the others. -/
def expectedOlts (controls : OltControls) (failed : List String) (olts : List OltSpec) : List OltSpec :=
  (olts.filter fun olt => !isFailed controls failed olt).map (updated controls)

/-- The OLT behind one that failed stays as it is. -/
def passOver (controls : OltControls) (failed : List String) : List OltSpec → List OltSpec
  | [] => []
  | [olt] => if isFailed controls failed olt then [] else [updated controls olt]
  | olt :: next :: olts =>
      if isFailed controls failed olt then next :: passOver controls failed olts
      else updated controls olt :: passOver controls failed (next :: olts)

variable {controls : OltControls} {failed : List String} {olts before : List OltSpec} {olt next : OltSpec}

/-- The keys of the `olt-control`s are distinct. -/
def DistinctControls (controls : OltControls) : Prop := (controls.map fun e => e.2.key).Nodup

/-- The OLT is not changed. -/
def Unchanged (controls : OltControls) (failed : List String) (olt : OltSpec) : Prop :=
  isFailed controls failed olt = false ∧ updated controls olt = olt

/-! ## The inner loop -/

theorem mergeOlt_of_not {i : Nat} (h : ∀ e ∈ controls, olt.key ≠ e.2.key) (olts : List OltSpec) :
    mergeOlt failed i olt controls olts = some olts := by
  induction controls with
  | nil => rfl
  | cons e controls ih =>
      rw [mergeOlt, if_neg (h e List.mem_cons_self)]
      exact ih fun e' he' => h e' (List.mem_cons_of_mem _ he')

/-- **The inner loop** finds the `olt-control` of the OLT once. -/
theorem mergeOlt_eq {i : Nat} (hn : DistinctControls controls) (hi : i < olts.length) :
    mergeOlt failed i olt controls olts =
      some (match controlOf controls olt with
        | none => olts
        | some e => if e.1 ∈ failed then olts.eraseIdx i else olts.set i e.2) := by
  induction controls with
  | nil => rfl
  | cons e controls ih =>
      obtain ⟨hnew, hrest⟩ := List.nodup_cons.mp hn
      unfold controlOf
      by_cases hkey : olt.key = e.2.key
      · rw [mergeOlt, if_pos hkey, if_pos hi, List.find?_cons_of_pos (by simpa using hkey)]
        exact mergeOlt_of_not (fun e' he' heq => hnew (List.mem_map.mpr ⟨e', he', by rw [← heq, hkey]⟩)) _
      · rw [mergeOlt, if_neg hkey, List.find?_cons_of_neg (by simpa using hkey)]
        exact ih hrest

/-- The entry at the index is deleted or replaced. -/
theorem mergeOlt_at (hn : DistinctControls controls) (before rest : List OltSpec) :
    mergeOlt failed before.length olt controls (before ++ olt :: rest) =
      some (if isFailed controls failed olt then before ++ rest else before ++ updated controls olt :: rest) := by
  rw [mergeOlt_eq hn (by simp)]
  unfold isFailed updated
  cases controlOf controls olt with
  | none => rfl
  | some e =>
      by_cases hmem : e.1 ∈ failed
      · simp [hmem, List.eraseIdx_append_of_length_le]
      · simp [hmem]

/-! ## The loop -/

theorem passOver_failed (h : isFailed controls failed olt = true) (next : OltSpec) (rest : List OltSpec) :
    passOver controls failed (olt :: next :: rest) = next :: passOver controls failed rest := by
  rw [passOver, if_pos h]

theorem passOver_updated (h : isFailed controls failed olt = false) (rest : List OltSpec) :
    passOver controls failed (olt :: rest) = updated controls olt :: passOver controls failed rest := by
  cases rest <;> simp [passOver, h]

theorem mergeLoop_eq (hn : DistinctControls controls) (turns : Nat) : ∀ before rest : List OltSpec,
    rest.length < turns → mergeLoop controls failed turns before.length (before ++ rest) =
      some (before ++ passOver controls failed rest) := by
  induction turns with
  | zero => exact fun _ _ h => absurd h (Nat.not_lt_zero _)
  | succ turns ih =>
      intro before rest hturns
      cases rest with
      | nil => simp [mergeLoop, passOver]
      | cons olt rest =>
          have hat : (before ++ olt :: rest)[before.length]? = some olt := by simp
          have hturns : rest.length < turns := Nat.lt_of_succ_lt_succ hturns
          rw [mergeLoop, hat]
          simp only [mergeOlt_at hn, bind, Option.bind_some]
          by_cases hfailed : isFailed controls failed olt = true
          · rw [if_pos hfailed]
            cases rest with
            | nil =>
                obtain ⟨turns, rfl⟩ := Nat.exists_eq_add_of_lt hturns
                simp [mergeLoop, passOver, hfailed]
            | cons next rest =>
                -- the next entry is now at the index of the deleted one
                have hnext := ih (before ++ [next]) rest (Nat.lt_trans (Nat.lt_succ_self _) hturns)
                rw [passOver_failed hfailed]
                simpa using hnext
          · have hnext := ih (before ++ [updated controls olt]) rest hturns
            rw [if_neg hfailed, passOver_updated (by simpa using hfailed)]
            simpa using hnext

/-- **What the loop makes of the list**: it does not raise, and passes over the OLTs behind those that it deletes. -/
theorem mergeOlts_eq (hn : DistinctControls controls) (olts : List OltSpec) :
    mergeOlts controls failed olts = some (passOver controls failed olts) :=
  mergeLoop_eq hn _ [] olts (Nat.lt_succ_self _)

/-! ## What it should make of it -/

theorem key_updated (controls : OltControls) (olt : OltSpec) : (updated controls olt).key = olt.key := by
  unfold updated
  cases hcontrol : controlOf controls olt with
  | none => rfl
  | some e =>
      have hkey := List.find?_some (p := fun e : String × OltSpec => decide (olt.key = e.2.key)) hcontrol
      exact (of_decide_eq_true hkey).symm

theorem mem_keys_of_mem_expected {e : OltSpec} (h : e ∈ expectedOlts controls failed olts) :
    e.key ∈ olts.map OltSpec.key := by
  obtain ⟨olt, holt, rfl⟩ := List.mem_map.mp h
  rw [key_updated]
  exact List.mem_map_of_mem (List.mem_of_mem_filter holt)

theorem expectedOlts_failed (h : isFailed controls failed olt = true) (olts : List OltSpec) :
    expectedOlts controls failed (olt :: olts) = expectedOlts controls failed olts := by
  simp [expectedOlts, h]

theorem expectedOlts_updated (h : isFailed controls failed olt = false) (olts : List OltSpec) :
    expectedOlts controls failed (olt :: olts) = updated controls olt :: expectedOlts controls failed olts := by
  simp [expectedOlts, h]

/-- Each OLT behind one that failed is not changed. -/
def NothingBehind (controls : OltControls) (failed : List String) (olts : List OltSpec) : Prop :=
  olts.IsChain fun olt next => isFailed controls failed olt = true → Unchanged controls failed next

theorem nothingBehind_cons (h : isFailed controls failed olt = false) (olts : List OltSpec) :
    NothingBehind controls failed (olt :: olts) ↔ NothingBehind controls failed olts := by
  unfold NothingBehind
  cases olts with
  | nil => simp
  | cons next olts => simp [List.isChain_cons_cons, h]

theorem passOver_eq_iff (controls : OltControls) (failed : List String) : ∀ olts : List OltSpec,
    (olts.map OltSpec.key).Nodup →
      (passOver controls failed olts = expectedOlts controls failed olts ↔ NothingBehind controls failed olts)
  | [], _ => by simp [passOver, expectedOlts, NothingBehind]
  | [olt], _ => by
      by_cases hfailed : isFailed controls failed olt = true <;>
        simp [passOver, expectedOlts, NothingBehind, hfailed]
  | olt :: next :: olts, hkeys => by
      obtain ⟨-, hkeys⟩ := List.nodup_cons.mp hkeys
      by_cases hfailed : isFailed controls failed olt = true
      · obtain ⟨hnew, hrest⟩ := List.nodup_cons.mp hkeys
        have hchain : NothingBehind controls failed (olt :: next :: olts) ↔
            Unchanged controls failed next ∧ NothingBehind controls failed (next :: olts) := by
          simp [NothingBehind, List.isChain_cons_cons, hfailed]
        rw [passOver_failed hfailed, expectedOlts_failed hfailed, hchain]
        by_cases hnext : isFailed controls failed next = true
        · -- the next one is still there, and no other entry has its key
          rw [expectedOlts_failed hnext]
          refine iff_of_false (fun heq => hnew (mem_keys_of_mem_expected (heq ▸ List.mem_cons_self))) ?_
          rintro ⟨⟨hkept, -⟩, -⟩
          rw [hnext] at hkept
          cases hkept
        · have hkept : isFailed controls failed next = false := by simpa using hnext
          rw [expectedOlts_updated hkept, nothingBehind_cons hkept, ← passOver_eq_iff controls failed olts hrest,
            List.cons.injEq]
          exact and_congr_left fun _ => ⟨fun heq => ⟨hkept, heq.symm⟩, fun h => h.2.symm⟩
      · have hkept : isFailed controls failed olt = false := by simpa using hfailed
        rw [passOver_updated hkept, expectedOlts_updated hkept, nothingBehind_cons hkept,
          ← passOver_eq_iff controls failed (next :: olts) hkeys, List.cons.injEq]
        exact and_iff_right rfl

/-- **The list becomes what it should** if and only if each OLT behind one that failed is not to be changed: it did not
fail, and is the spec of its `olt-control`, if it has one. -/
theorem mergeOlts_iff (hn : DistinctControls controls) (hkeys : (olts.map OltSpec.key).Nodup) :
    mergeOlts controls failed olts = some (expectedOlts controls failed olts) ↔
      NothingBehind controls failed olts := by
  rw [mergeOlts_eq hn, Option.some.injEq]
  exact passOver_eq_iff controls failed olts hkeys

/-- Three OLTs of a module, and the `olt-control`s of two of them. -/
def threeOlts : List OltSpec := [⟨⟨1, 1, 0⟩, ""⟩, ⟨⟨1, 2, 0⟩, ""⟩, ⟨⟨1, 3, 0⟩, ""⟩]

def twoControls : OltControls :=
  [("olt-control-1-1-0", ⟨⟨1, 1, 0⟩, "vxlan"⟩), ("olt-control-1-3-0", ⟨⟨1, 3, 0⟩, "vxlan"⟩)]

/-- The first OLT failed, the second one has no `olt-control`, and the third one is replaced. -/
theorem mergeOlts_sample : mergeOlts twoControls ["olt-control-1-1-0"] threeOlts =
    some (expectedOlts twoControls ["olt-control-1-1-0"] threeOlts) := by
  refine (mergeOlts_iff (by simp [DistinctControls, twoControls]) (by decide)).mpr ?_
  simp [NothingBehind, threeOlts, List.isChain_cons_cons, Unchanged, isFailed, updated, controlOf, twoControls]

/-- **Two OLTs that failed**, one behind the other: the second one stays in the list. -/
theorem mergeOlts_wrong : ¬ mergeOlts [("olt-control-1-1-0", ⟨⟨1, 1, 0⟩, ""⟩), ("olt-control-1-2-0", ⟨⟨1, 2, 0⟩, ""⟩)]
      ["olt-control-1-1-0", "olt-control-1-2-0"] [⟨⟨1, 1, 0⟩, ""⟩, ⟨⟨1, 2, 0⟩, ""⟩] =
    some (expectedOlts [("olt-control-1-1-0", ⟨⟨1, 1, 0⟩, ""⟩), ("olt-control-1-2-0", ⟨⟨1, 2, 0⟩, ""⟩)]
      ["olt-control-1-1-0", "olt-control-1-2-0"] [⟨⟨1, 1, 0⟩, ""⟩, ⟨⟨1, 2, 0⟩, ""⟩]) := by
  decide

end Workbench.ModuleMgmt
