import Mathlib.Algebra.BigOperators.Group.Finset.Basic
import Mathlib.Data.Finset.Sort
import Mathlib.Order.Interval.Finset.Nat
import Workbench.Lib.Dict

/-!
# `Iface.ProtectionGroups` — `apply_bng_pgs`

BNG workloads are kept in protection groups of a bounded size. One pass takes the deleted workloads out of
the existing groups and refills these from the created ones; a second pass puts the rest into new groups,
which take the gaps of the index range first. Groups and workloads are the numbers in their names.

## Contents
- **The code.** `refillPgs` and `createPgs`, the two loops, and `applyBngPgs`, the operations they emit.
- **The cluster.** `applyOps`, what the operations do to the existing groups.
- **Main result.** `applyBngPgs_sound`.
-/

namespace Workbench.Iface

/-! ## The code -/

/-- A `SortedSet` of numbers: `pop(0)` takes the smallest. -/
structure SortedSet where
  elems : List Nat
  sorted : elems.Pairwise (· < ·)

/-- The `spec` of a protection group. -/
structure PgSpec where
  redundancyPolicy : Int
  release : String
  workloads : List String

/-- `f'bng-workload-{wl}'`. -/
def workloadName (wl : Nat) : String := s!"bng-workload-{wl}"

/-- `generate_pg_spec`. -/
def generatePgSpec (redundancy : Int) (wls : Finset Nat) : PgSpec :=
  ⟨redundancy, "default", (wls.sort (· ≤ ·)).map workloadName⟩

/-- `f"bng-pg-{pg}"`. -/
def pgName (pg : Nat) : String := s!"bng-pg-{pg}"

/-- An operation on the cluster: `k8s_create`, `k8s_update_bngpg_spec` or `k8s_delete_bngpg`. The first two
    send `generatePgSpec` of the set. -/
inductive PgOp where
  | create (pg : Nat) (wls : Finset Nat)
  | update (pg : Nat) (wls : Finset Nat)
  | delete (pg : Nat)

/-- `for i in range(k): if wls_created: group.add(wls_created.pop(0))`. -/
def refill : Nat → Finset Nat → List Nat → Finset Nat × List Nat
  | 0, group, created => (group, created)
  | _ + 1, group, [] => (group, [])
  | k + 1, group, wl :: created => refill k (insert wl group) created

/-- The operation for an existing group whose content `old` has become `group`. -/
def groupOp (pg : Nat) (old group : Finset Nat) : List PgOp :=
  if group.card = 0 then [.delete pg]
  else if group ≠ old then [.update pg group]
  else []

/-- The loop over the existing groups: the operations, the new content of the groups, and the created
    workloads that are left. -/
def refillPgs (limit : Nat) (deleted : Finset Nat) :
    Dict Nat (Finset Nat) → List Nat → List PgOp × Dict Nat (Finset Nat) × List Nat
  | [], created => ([], [], created)
  | (pg, old) :: pgs, created =>
      let group := old \ deleted
      let (group, created) := refill (limit - group.card) group created
      let (ops, pgs, created) := refillPgs limit deleted pgs created
      (groupOp pg old group ++ ops, (pg, group) :: pgs, created)

/-- The loop over the workloads that are left. `current` is `min_idx_vacant_pg`, `gaps` is
    `inverleaved_empty_pg_idxs`. -/
def createPgs (limit maxIdx : Nat) : List Nat → List Nat → Nat → Dict Nat (Finset Nat) → List PgOp
  | [], _, _, _ => []
  | wl :: created, gaps, current, pgs =>
      let group := (pgs.get? current).getD ∅
      let group := if group.card < limit then insert wl group else group
      let pgs := pgs.put current group
      if limit ≤ group.card ∨ created = [] then
        .create current group ::
          match gaps with
          | next :: gaps => createPgs limit maxIdx created gaps next pgs
          | [] =>
              createPgs limit maxIdx created []
                (if current ≤ maxIdx then maxIdx + 1 else current + 1) pgs
      else createPgs limit maxIdx created gaps current pgs

/-- `max(k8s_bng_pgs.keys(), default=0)`. -/
def maxPgIdx (existing : Dict Nat (Finset Nat)) : Nat := existing.keys.foldr max 0

/-- `SortedSet(range(0, max_pg_idx + 1)) - k8s_bng_pgs.keys()`. -/
def vacantIdxs (existing : Dict Nat (Finset Nat)) : List Nat :=
  (List.range (maxPgIdx existing + 1)).filter (fun i => !existing.keys.contains i)

/-- `apply_bng_pgs`, for the groups that exist and the size limit from the environment. -/
def applyBngPgs (limit : Nat) (existing : Dict Nat (Finset Nat)) (created : SortedSet)
    (deleted : Finset Nat) : List PgOp :=
  let (ops, pgs, rest) := refillPgs limit deleted existing created.elems
  let maxIdx := maxPgIdx existing
  let (current, gaps) := match vacantIdxs existing with
    | next :: gaps => (next, gaps)
    | [] => (maxIdx + 1, [])
  ops ++ createPgs limit maxIdx rest gaps current pgs

/-! ## The cluster -/

/-- What an operation does to the groups of the cluster. -/
def applyOp (groups : Dict Nat (Finset Nat)) : PgOp → Dict Nat (Finset Nat)
  | .create pg wls => groups.put pg wls
  | .update pg wls => groups.put pg wls
  | .delete pg => groups.erase pg

def applyOps (groups : Dict Nat (Finset Nat)) (ops : List PgOp) : Dict Nat (Finset Nat) :=
  ops.foldl applyOp groups

/-- The group an operation creates. -/
def PgOp.created? : PgOp → Option (Nat × Finset Nat)
  | .create pg wls => some (pg, wls)
  | _ => none

/-- The groups the operations create. -/
def creates (ops : List PgOp) : List (Nat × Finset Nat) := ops.filterMap PgOp.created?

/-! ## Names and specs -/

theorem named_injective (text : String) : Function.Injective fun n => text ++ Nat.repr n := by
  intro a b h
  have hlist := congrArg String.toList h
  simp only [String.toList_append, Nat.repr, String.toList_ofList, List.append_cancel_left_eq] at hlist
  rw [← Nat.ofDigitChars_toDigits (show 1 < 10 by decide) (Nat.le_refl 10) (n := a), hlist,
    Nat.ofDigitChars_toDigits (by decide) (Nat.le_refl 10)]

theorem pgName_injective : Function.Injective pgName := named_injective _

theorem workloadName_injective : Function.Injective workloadName := named_injective _

/-- The spec that is sent says which workloads the group has. -/
theorem generatePgSpec_injective (redundancy : Int) : Function.Injective (generatePgSpec redundancy) := by
  intro s t h
  have hnames := (PgSpec.mk.inj h).2.2
  have hsort := List.map_injective_iff.mpr workloadName_injective hnames
  rw [← Finset.sort_toFinset (r := (· ≤ ·)) s, hsort, Finset.sort_toFinset]

/-! ## Refilling -/

theorem refill_eq (k : Nat) (group : Finset Nat) (created : List Nat) :
    refill k group created = (group ∪ (created.take k).toFinset, created.drop k) := by
  induction k generalizing group created with
  | zero => simp [refill]
  | succ k ih =>
      cases created with
      | nil => simp [refill]
      | cons wl created =>
          rw [refill, ih, List.take_succ_cons, List.toFinset_cons, List.drop_succ_cons,
            Finset.insert_union, Finset.union_insert]

/-- What the first loop has done: `groups` are the existing groups with their new content, `rest` the created
    workloads that found no place. -/
structure Refilled (limit : Nat) (deleted : Finset Nat) (existing : Dict Nat (Finset Nat))
    (created : List Nat) (groups : Dict Nat (Finset Nat)) (rest : List Nat) : Prop where
  suffix : rest <:+ created
  covers : ∀ w, ((∃ g ∈ groups, w ∈ g.2) ∨ w ∈ rest) ↔
    ((∃ e ∈ existing, w ∈ e.2) ∧ w ∉ deleted) ∨ w ∈ created
  disjoint : groups.Pairwise (fun a b => Disjoint a.2 b.2)
  rest_disjoint : ∀ g ∈ groups, ∀ w ∈ rest, w ∉ g.2
  within : ∀ g ∈ groups, (∃ w ∈ g.2, w ∈ created) → g.2.card ≤ limit
  full : rest ≠ [] → ∀ g ∈ groups, limit ≤ g.2.card

/-- One existing group: it takes what it may take, and when something is left it is full. -/
theorem refill_group {limit : Nat} {group : Finset Nat} {created : List Nat} (hn : created.Nodup)
    (hdis : ∀ w ∈ created, w ∉ group) :
    (created.take (limit - group.card) ≠ [] →
      (group ∪ (created.take (limit - group.card)).toFinset).card ≤ limit) ∧
    (created.drop (limit - group.card) ≠ [] →
      limit ≤ (group ∪ (created.take (limit - group.card)).toFinset).card) := by
  have hdis' : Disjoint group (created.take (limit - group.card)).toFinset := by
    rw [Finset.disjoint_right]
    intro w hw
    exact hdis w (List.mem_of_mem_take (List.mem_toFinset.mp hw))
  have hcard : (group ∪ (created.take (limit - group.card)).toFinset).card =
      group.card + min (limit - group.card) created.length := by
    rw [Finset.card_union_of_disjoint hdis',
      List.toFinset_card_of_nodup (hn.sublist (List.take_sublist _ _)), List.length_take]
  rw [hcard]
  constructor
  · intro hne
    have hpos : limit - group.card ≠ 0 := by
      intro hz
      simp [hz] at hne
    omega
  · intro hne
    have hlt : limit - group.card < created.length := by
      by_contra hcon
      exact hne (List.drop_eq_nil_of_le (Nat.not_lt.mp hcon))
    omega

theorem keys_refillPgs {limit : Nat} {deleted : Finset Nat} (existing : Dict Nat (Finset Nat)) :
    ∀ created : List Nat, (refillPgs limit deleted existing created).2.1.keys = existing.keys := by
  induction existing with
  | nil => intro created; rfl
  | cons e existing ih =>
      intro created
      obtain ⟨pg, old⟩ := e
      simp only [refillPgs, Dict.keys, List.map_cons] at ih ⊢
      rw [ih]

section

variable {limit pg k : Nat} {deleted old group : Finset Nat} {existing groups : Dict Nat (Finset Nat)}
  {created rest : List Nat}

/-- Nothing that a later group or the rest has is in this one. -/
theorem Refilled.not_later (h : Refilled limit deleted existing (created.drop k) groups rest) (hn : created.Nodup)
    (hpair : ∀ e ∈ existing, Disjoint old e.2) (hdis : ∀ e ∈ (pg, old) :: existing, ∀ w ∈ created, w ∉ e.2) {w : Nat}
    (hw : w ∈ (old \ deleted) ∪ (created.take k).toFinset) : ¬ ((∃ g ∈ groups, w ∈ g.2) ∨ w ∈ rest) := by
  have hold : ∀ w ∈ created, w ∉ old := hdis _ (List.mem_cons_self ..)
  have htd : ∀ w ∈ created.take k, w ∉ created.drop k := by
    intro w ht hd
    rw [← List.take_append_drop k created, List.nodup_append] at hn
    exact hn.2.2 w ht w hd rfl
  rw [h.covers]
  intro hcon
  rcases Finset.mem_union.mp hw with hw | hw
  · have hw' := (Finset.mem_sdiff.mp hw).1
    rcases hcon with ⟨⟨e, he, hwe⟩, -⟩ | hd
    · exact Finset.disjoint_left.mp (hpair e he) hw' hwe
    · exact hold w (List.mem_of_mem_drop hd) hw'
  · have ht := List.mem_toFinset.mp hw
    rcases hcon with ⟨⟨e, he, hwe⟩, -⟩ | hd
    · exact hdis e (List.mem_cons_of_mem _ he) w (List.mem_of_mem_take ht) hwe
    · exact htd w ht hd

/-- **One existing group**, before the others. -/
theorem Refilled.cons (hk : k = limit - (old \ deleted).card)
    (h : Refilled limit deleted existing (created.drop k) groups rest) (hn : created.Nodup)
    (hpair : ∀ e ∈ existing, Disjoint old e.2) (hdis : ∀ e ∈ (pg, old) :: existing, ∀ w ∈ created, w ∉ e.2) :
    Refilled limit deleted ((pg, old) :: existing) created
      ((pg, (old \ deleted) ∪ (created.take k).toFinset) :: groups) rest := by
  have hold : ∀ w ∈ created, w ∉ old := hdis _ (List.mem_cons_self ..)
  have hkept : ∀ w ∈ created, w ∉ old \ deleted := fun w hw hmem => hold w hw (Finset.mem_sdiff.mp hmem).1
  have hgroup := @refill_group limit (old \ deleted) created hn hkept
  rw [← hk] at hgroup
  -- what is in the first group is not left for the groups behind it
  have hlater : ∀ w ∈ (old \ deleted) ∪ (created.take k).toFinset, ¬ ((∃ g ∈ groups, w ∈ g.2) ∨ w ∈ rest) :=
    fun w hw => h.not_later hn hpair hdis hw
  exact {
    suffix := h.suffix.trans (List.drop_suffix _ _)
    covers := by
      intro w
      have hcov := h.covers w
      have hsplit : w ∈ created ↔ w ∈ created.take k ∨ w ∈ created.drop k := by
        conv_lhs => rw [← List.take_append_drop k created]
        exact List.mem_append
      have hmem : w ∈ (old \ deleted) ∪ (created.take k).toFinset ↔
          (w ∈ old ∧ w ∉ deleted) ∨ w ∈ created.take k := by
        rw [Finset.mem_union, Finset.mem_sdiff, List.mem_toFinset]
      calc _ ↔ w ∈ (old \ deleted) ∪ (created.take k).toFinset ∨ (∃ g ∈ groups, w ∈ g.2) ∨ w ∈ rest := by
            rw [List.exists_mem_cons_iff, or_assoc]
        _ ↔ ((w ∈ old ∧ w ∉ deleted) ∨ w ∈ created.take k) ∨
              ((∃ e ∈ existing, w ∈ e.2) ∧ w ∉ deleted) ∨ w ∈ created.drop k := by
            rw [hmem, hcov]
        _ ↔ ((w ∈ old ∨ ∃ e ∈ existing, w ∈ e.2) ∧ w ∉ deleted) ∨
              w ∈ created.take k ∨ w ∈ created.drop k := by
            rw [or_and_right, or_or_or_comm]
        _ ↔ _ := by rw [List.exists_mem_cons_iff, hsplit]
    disjoint := by
      refine List.pairwise_cons.mpr ⟨fun g hg => ?_, h.disjoint⟩
      rw [Finset.disjoint_left]
      exact fun w hw hwg => hlater w hw (Or.inl ⟨g, hg, hwg⟩)
    rest_disjoint := by
      intro g hg w hw
      rcases List.mem_cons.mp hg with rfl | hg
      · exact fun hwg => hlater w hwg (Or.inr hw)
      · exact h.rest_disjoint g hg w hw
    within := by
      rintro g hg ⟨w, hwg, hwc⟩
      rcases List.mem_cons.mp hg with rfl | hg
      · refine hgroup.1 ?_
        intro hnil
        rcases Finset.mem_union.mp hwg with hmem | hmem
        · exact hold w hwc (Finset.mem_sdiff.mp hmem).1
        · simp [hnil] at hmem
      · refine h.within g hg ⟨w, hwg, ?_⟩
        rcases (h.covers w).mp (Or.inl ⟨g, hg, hwg⟩) with ⟨⟨e, he, hwe⟩, -⟩ | hd
        · exact absurd hwe (hdis e (List.mem_cons_of_mem _ he) w hwc)
        · exact hd
    full := by
      intro hne g hg
      rcases List.mem_cons.mp hg with rfl | hg
      · refine hgroup.2 ?_
        intro hnil
        have hlen := h.suffix.length_le
        rw [List.length_eq_zero_iff.mpr hnil] at hlen
        exact hne (List.length_eq_zero_iff.mp (Nat.le_zero.mp hlen))
      · exact h.full hne g hg }

/-- **The first loop**, by induction on the existing groups. -/
theorem refillPgs_refilled : ∀ (existing : Dict Nat (Finset Nat)) (created : List Nat), created.Nodup →
    existing.Pairwise (fun a b => Disjoint a.2 b.2) → (∀ e ∈ existing, ∀ w ∈ created, w ∉ e.2) →
    Refilled limit deleted existing created (refillPgs limit deleted existing created).2.1
      (refillPgs limit deleted existing created).2.2
  | [], created => by
      intro _ _ _
      exact ⟨List.suffix_refl _, by simp [refillPgs], List.Pairwise.nil, by simp [refillPgs],
        by simp [refillPgs], by simp [refillPgs]⟩
  | (pg, old) :: existing, created => by
      intro hn hpair hdis
      rw [List.pairwise_cons] at hpair
      have ih := refillPgs_refilled existing (created.drop (limit - (old \ deleted).card))
        (hn.sublist (List.drop_sublist _ _)) hpair.2
        (fun e he w hw => hdis e (List.mem_cons_of_mem _ he) w (List.mem_of_mem_drop hw))
      rw [refillPgs, refill_eq]
      exact ih.cons rfl hn hpair.1 hdis

end

/-! ## New groups -/

/-- The indexes still to be used: the current one and the gaps above it are vacant. -/
structure Vacant (keys : List Nat) (gaps : List Nat) (current : Nat) : Prop where
  current_vacant : current ∉ keys
  above : ∀ g ∈ gaps, current < g
  sorted : gaps.Pairwise (· < ·)
  gaps_vacant : ∀ g ∈ gaps, g ∉ keys

theorem Vacant.next {keys : List Nat} {current g : Nat} {gaps : List Nat}
    (h : Vacant keys (g :: gaps) current) : Vacant keys gaps g where
  current_vacant := h.gaps_vacant g (List.mem_cons_self ..)
  above := (List.pairwise_cons.mp h.sorted).1
  sorted := (List.pairwise_cons.mp h.sorted).2
  gaps_vacant := fun x hx => h.gaps_vacant x (List.mem_cons_of_mem _ hx)

/-- Above the existing groups every index is vacant. -/
theorem vacant_of_lt {keys : List Nat} {maxIdx current : Nat} (hmax : ∀ k ∈ keys, k ≤ maxIdx)
    (h : maxIdx < current) : Vacant keys [] current where
  current_vacant := fun hk => absurd (hmax _ hk) (by omega)
  above := by simp
  sorted := List.Pairwise.nil
  gaps_vacant := by simp

/-- When a group is closed the loop goes on with the next vacant index, a gap or one above the groups. -/
theorem vacant_close (limit : Nat) {maxIdx current : Nat} {keys gaps : List Nat} (hmax : ∀ k ∈ keys, k ≤ maxIdx) :
    Vacant keys gaps current → ∃ next gaps', current < next ∧ Vacant keys gaps' next ∧
      ∀ created pgs, (match gaps with
        | next :: gaps => createPgs limit maxIdx created gaps next pgs
        | [] => createPgs limit maxIdx created [] (if current ≤ maxIdx then maxIdx + 1 else current + 1) pgs) =
          createPgs limit maxIdx created gaps' next pgs := by
  intro h
  cases gaps with
  | cons next gaps => exact ⟨next, gaps, h.above next (List.mem_cons_self ..), h.next, fun _ _ => rfl⟩
  | nil =>
      refine ⟨_, [], ?_, vacant_of_lt hmax ?_, fun _ _ => rfl⟩
      · split <;> omega
      · split <;> omega

/-- The groups the second loop creates, for the workloads `held` that are already in the current group. -/
structure Created (limit : Nat) (keys : List Nat) (current : Nat) (held : Finset Nat)
    (created : List Nat) (groups : List (Nat × Finset Nat)) : Prop where
  covers : ∀ w, (∃ g ∈ groups, w ∈ g.2) ↔ w ∈ held ∨ w ∈ created
  ordered : groups.Pairwise (fun a b => a.1 < b.1)
  disjoint : groups.Pairwise (fun a b => Disjoint a.2 b.2)
  bounds : ∀ g ∈ groups, current ≤ g.1 ∧ g.1 ∉ keys ∧ g.2.Nonempty ∧ g.2.card ≤ limit

/-- A group is closed, and the rest of the workloads goes to later ones. -/
theorem Created.close {limit current next wl : Nat} {keys : List Nat} {held : Finset Nat}
    {created : List Nat} {groups : List (Nat × Finset Nat)}
    (h : Created limit keys next ∅ created groups) (hlt : current < next) (hcur : current ∉ keys)
    (hcard : (insert wl held).card ≤ limit) (hn : (wl :: created).Nodup)
    (hdis : ∀ w ∈ wl :: created, w ∉ held) :
    Created limit keys current held (wl :: created) ((current, insert wl held) :: groups) where
  covers := by
    intro w
    rw [List.exists_mem_cons_iff, h.covers, Finset.mem_insert, List.mem_cons]
    simp only [Finset.notMem_empty, false_or]
    rw [or_comm (a := w = wl), or_assoc]
  ordered := by
    refine List.pairwise_cons.mpr ⟨fun g hg => ?_, h.ordered⟩
    exact Nat.lt_of_lt_of_le hlt (h.bounds g hg).1
  disjoint := by
    refine List.pairwise_cons.mpr ⟨fun g hg => ?_, h.disjoint⟩
    rw [Finset.disjoint_left]
    intro w hw hwg
    -- what a later group holds comes from the rest, the current group has nothing of it
    have hrest : w ∈ created := by simpa using (h.covers w).mp ⟨g, hg, hwg⟩
    rcases Finset.mem_insert.mp hw with rfl | hw
    · exact (List.nodup_cons.mp hn).1 hrest
    · exact hdis w (List.mem_cons_of_mem _ hrest) hw
  bounds := by
    intro g hg
    rcases List.mem_cons.mp hg with rfl | hg
    · exact ⟨le_rfl, hcur, ⟨wl, Finset.mem_insert_self ..⟩, hcard⟩
    · obtain ⟨hle, hrest⟩ := h.bounds g hg
      exact ⟨Nat.le_trans (Nat.le_of_lt hlt) hle, hrest⟩

theorem createPgs_created {limit maxIdx : Nat} {keys : List Nat}
    (hmax : ∀ k ∈ keys, k ≤ maxIdx) : ∀ (created gaps : List Nat) (current : Nat)
      (pgs : Dict Nat (Finset Nat)) (held : Finset Nat), created.Nodup →
      Vacant keys gaps current → (pgs.get? current).getD ∅ = held →
      (∀ j, j ∉ keys → current < j → pgs.get? j = none) → held.card < limit →
      (∀ w ∈ created, w ∉ held) → (created = [] → held = ∅) →
      ∃ groups, createPgs limit maxIdx created gaps current pgs =
          groups.map (fun g => .create g.1 g.2) ∧ Created limit keys current held created groups
  | [], gaps, current, pgs, held => by
      intro _ _ _ _ _ _ hempty
      refine ⟨[], rfl, ?_, List.Pairwise.nil, List.Pairwise.nil, by simp⟩
      intro w
      simp [hempty rfl]
  | wl :: created, gaps, current, pgs, held => by
      intro hn hvac hheld hfresh hcard hdis _
      have hnew : (insert wl held).card = held.card + 1 :=
        Finset.card_insert_of_notMem (hdis wl (List.mem_cons_self ..))
      have hput : ∀ j, j ∉ keys → current < j → (pgs.put current (insert wl held)).get? j = none := by
        intro j hj hlt
        rw [Dict.get?_put_ne (Nat.ne_of_lt hlt)]
        exact hfresh j hj hlt
      simp only [createPgs, hheld, if_pos hcard]
      by_cases hclose : limit ≤ (insert wl held).card ∨ created = []
      · -- the group is full, or there is nothing more to put in it
        obtain ⟨next, gaps', hlt, hvac', hgoes⟩ := vacant_close limit hmax hvac
        have hempty : ((pgs.put current (insert wl held)).get? next).getD ∅ = ∅ := by
          rw [hput next hvac'.current_vacant hlt, Option.getD_none]
        obtain ⟨groups, heq, hgroups⟩ := createPgs_created hmax created gaps' next _ ∅ (List.nodup_cons.mp hn).2
          hvac' hempty (fun j hj hj' => hput j hj (Nat.lt_trans hlt hj'))
          (Nat.lt_of_le_of_lt (Nat.zero_le _) hcard) (by simp) (fun _ => rfl)
        refine ⟨(current, insert wl held) :: groups, ?_, ?_⟩
        · rw [if_pos hclose, hgoes, heq]
          rfl
        · exact hgroups.close hlt hvac.current_vacant (by omega) hn hdis
      · -- the group stays open
        rw [if_neg hclose]
        rw [not_or, Nat.not_le] at hclose
        obtain ⟨groups, heq, hgroups⟩ := createPgs_created hmax created gaps current
          (pgs.put current (insert wl held)) (insert wl held) (List.nodup_cons.mp hn).2 hvac
          (by simp) hput hclose.1 (by
            intro w hw hmem
            rcases Finset.mem_insert.mp hmem with rfl | hmem
            · exact (List.nodup_cons.mp hn).1 hw
            · exact hdis w (List.mem_cons_of_mem _ hw) hmem) (fun hnil => absurd hnil hclose.2)
        refine ⟨groups, heq, ?_, hgroups.ordered, hgroups.disjoint, hgroups.bounds⟩
        intro w
        rw [hgroups.covers, Finset.mem_insert, List.mem_cons, or_comm (a := w = wl), or_assoc]

/-! ## What the operations do -/

theorem applyOps_append (groups : Dict Nat (Finset Nat)) (ops ops' : List PgOp) :
    applyOps groups (ops ++ ops') = applyOps (applyOps groups ops) ops' :=
  List.foldl_append ..

/-- A group of the cluster after the first loop, given its new content. -/
def kept (group : Finset Nat) : Option (Finset Nat) := if group.card = 0 then none else some group

theorem get?_groupOp {groups : Dict Nat (Finset Nat)} {pg : Nat} {old group : Finset Nat}
    (h : groups.get? pg = some old) (i : Nat) : (applyOps groups (groupOp pg old group)).get? i =
      if i = pg then kept group else groups.get? i := by
  unfold groupOp kept
  by_cases hempty : group.card = 0
  · rw [if_pos hempty, if_pos hempty]
    by_cases hi : i = pg
    · subst hi
      simp [applyOps, applyOp]
    · simp [applyOps, applyOp, hi, Ne.symm hi]
  · rw [if_neg hempty, if_neg hempty]
    by_cases hsame : group = old
    · -- an unchanged group is left alone
      subst hsame
      rw [if_neg (by simp)]
      by_cases hi : i = pg
      · subst hi
        simp [applyOps, h]
      · simp [applyOps, hi]
    · rw [if_pos hsame]
      by_cases hi : i = pg
      · subst hi
        simp [applyOps, applyOp]
      · simp [applyOps, applyOp, hi, Ne.symm hi]

/-- After the first loop an existing group has its new content, or is gone when that is empty. -/
theorem get?_applyOps_refillPgs {limit : Nat} {deleted : Finset Nat} :
    ∀ (existing : Dict Nat (Finset Nat)) (created : List Nat) (groups : Dict Nat (Finset Nat)),
      existing.keys.Nodup → (∀ e ∈ existing, groups.get? e.1 = some e.2) → ∀ i,
      (applyOps groups (refillPgs limit deleted existing created).1).get? i =
        match (refillPgs limit deleted existing created).2.1.get? i with
        | some group => kept group
        | none => groups.get? i
  | [], created, groups => by
      intro _ _ i
      simp [refillPgs, applyOps]
  | (pg, old) :: existing, created, groups => by
      intro hn hgroups i
      simp only [Dict.keys, List.map_cons, List.nodup_cons] at hn
      have hold : groups.get? pg = some old := hgroups _ (List.mem_cons_self ..)
      obtain ⟨group, rest, hrefill⟩ : ∃ group rest, refill (limit - (old \ deleted).card) (old \ deleted)
          created = (group, rest) := ⟨_, _, rfl⟩
      have hrest : ∀ e ∈ existing, (applyOps groups (groupOp pg old group)).get? e.1 = some e.2 := by
        intro e he
        have hne : e.1 ≠ pg := fun heq => hn.1 (List.mem_map.mpr ⟨e, he, heq⟩)
        rw [get?_groupOp hold, if_neg hne]
        exact hgroups e (List.mem_cons_of_mem _ he)
      have ih := @get?_applyOps_refillPgs limit deleted existing rest _ hn.2 hrest i
      simp only [refillPgs, hrefill, applyOps_append, ih, Dict.get?_cons]
      by_cases hi : pg = i
      · -- the later operations are on other groups
        subst hi
        have hnone : (refillPgs limit deleted existing rest).2.1.get? pg = none := by
          rw [Dict.get?_eq_none_iff, keys_refillPgs]
          exact hn.1
        rw [hnone, if_pos rfl, get?_groupOp hold, if_pos rfl]
      · rw [if_neg hi, get?_groupOp hold, if_neg (Ne.symm hi)]

/-- The first loop creates nothing. -/
theorem creates_refillPgs {limit : Nat} {deleted : Finset Nat} (existing : Dict Nat (Finset Nat)) :
    ∀ created : List Nat, creates (refillPgs limit deleted existing created).1 = [] := by
  induction existing with
  | nil => intro created; rfl
  | cons e existing ih =>
      intro created
      obtain ⟨pg, old⟩ := e
      have hop : ∀ group, creates (groupOp pg old group) = [] := by
        intro group
        unfold groupOp
        split
        · rfl
        · split <;> rfl
      simp only [refillPgs, creates, List.filterMap_append] at ih hop ⊢
      rw [hop, ih, List.append_nil]

theorem get?_applyOps_creates (groups : List (Nat × Finset Nat)) :
    ∀ before : Dict Nat (Finset Nat), (Dict.keys groups).Nodup → ∀ i,
      (applyOps before (groups.map fun g => .create g.1 g.2)).get? i =
        (Dict.get? groups i).or (before.get? i) := by
  induction groups with
  | nil => intro before _ i; rfl
  | cons g groups ih =>
      intro before hn i
      obtain ⟨pg, group⟩ := g
      simp only [Dict.keys, List.map_cons, List.nodup_cons] at hn
      have hstep : applyOps before (((pg, group) :: groups).map fun g => .create g.1 g.2) =
          applyOps (before.put pg group) (groups.map fun g => .create g.1 g.2) := rfl
      rw [hstep, ih _ hn.2, Dict.get?_cons]
      by_cases hi : pg = i
      · subst hi
        rw [Dict.get?_eq_none_iff.mpr hn.1]
        simp
      · rw [if_neg hi, Dict.get?_put_ne hi]

/-! ## Main result -/

theorem le_maxPgIdx {existing : Dict Nat (Finset Nat)} {k : Nat} (h : k ∈ existing.keys) :
    k ≤ maxPgIdx existing := by
  unfold maxPgIdx
  generalize existing.keys = keys at h ⊢
  induction keys with
  | nil => cases h
  | cons x xs ih =>
      rw [List.foldr_cons]
      rcases List.mem_cons.mp h with rfl | h
      · exact Nat.le_max_left ..
      · exact Nat.le_trans (ih h) (Nat.le_max_right ..)

/-- The indexes `apply_bng_pgs` starts with. -/
theorem vacant_vacantIdxs (existing : Dict Nat (Finset Nat)) :
    match vacantIdxs existing with
    | next :: gaps => Vacant existing.keys gaps next
    | [] => Vacant existing.keys [] (maxPgIdx existing + 1) := by
  have hsorted : (vacantIdxs existing).Pairwise (· < ·) := List.pairwise_lt_range.filter _
  have hvacant : ∀ i ∈ vacantIdxs existing, i ∉ existing.keys := by
    intro i hi
    simpa using (List.mem_filter.mp hi).2
  cases hv : vacantIdxs existing with
  | nil => exact vacant_of_lt (fun k hk => le_maxPgIdx hk) (Nat.lt_succ_self _)
  | cons next gaps =>
      rw [hv] at hsorted hvacant
      exact ⟨hvacant next (List.mem_cons_self ..), (List.pairwise_cons.mp hsorted).1,
        (List.pairwise_cons.mp hsorted).2, fun g hg => hvacant g (List.mem_cons_of_mem _ hg)⟩

section

variable {limit maxIdx : Nat} {deleted : Finset Nat} {existing pgs : Dict Nat (Finset Nat)} {created : SortedSet}
  {rest : List Nat} {ops : List PgOp} {groups : List (Nat × Finset Nat)}

/-- `apply_bng_pgs` emits what the first loop emits, and then the groups that the second one creates. -/
theorem applyBngPgs_eq (hlimit : 1 ≤ limit)
    (hr : refillPgs limit deleted existing created.elems = (ops, pgs, rest)) (hpgs : Dict.keys pgs = existing.keys)
    (hrest : rest.Nodup) : ∃ current groups,
      applyBngPgs limit existing created deleted = ops ++ groups.map (fun g => PgOp.create g.1 g.2) ∧
      Created limit existing.keys current ∅ rest groups := by
  have habsent : ∀ j, j ∉ existing.keys → Dict.get? pgs j = none := by
    intro j hj
    rw [Dict.get?_eq_none_iff, hpgs]
    exact hj
  have hstart : ∀ current gaps, Vacant existing.keys gaps current →
      ∃ groups, createPgs limit (maxPgIdx existing) rest gaps current pgs =
        groups.map (fun g => PgOp.create g.1 g.2) ∧ Created limit existing.keys current ∅ rest groups := by
    intro current gaps hvac
    exact createPgs_created (fun k hk => le_maxPgIdx hk) rest gaps current pgs ∅ hrest hvac
      (by rw [habsent current hvac.current_vacant, Option.getD_none]) (fun j hj _ => habsent j hj)
      (by rw [Finset.card_empty]; omega) (by simp) (fun _ => rfl)
  have hvac := vacant_vacantIdxs existing
  cases hv : vacantIdxs existing with
  | nil =>
      rw [hv] at hvac
      obtain ⟨groups, heq, hgroups⟩ := hstart _ _ hvac
      exact ⟨_, groups, by simp only [applyBngPgs, hr, hv, heq], hgroups⟩
  | cons next gaps =>
      rw [hv] at hvac
      obtain ⟨groups, heq, hgroups⟩ := hstart _ _ hvac
      exact ⟨_, groups, by simp only [applyBngPgs, hr, hv, heq], hgroups⟩

theorem creates_append (hnone : creates ops = []) :
    creates (ops ++ groups.map fun g => PgOp.create g.1 g.2) = groups := by
  have hself : creates (groups.map fun g => PgOp.create g.1 g.2) = groups := by
    rw [creates, List.filterMap_map]
    exact List.filterMap_some
  rw [creates, List.filterMap_append]
  exact (congrArg (· ++ _) hnone).trans (by simpa [creates] using hself)

/-- A group of the cluster afterwards is a new one, or a refilled one that is not empty. -/
theorem get?_after {after : Nat → Option (Finset Nat)} (hkeys : existing.keys.Nodup)
    (hpgs : Dict.keys pgs = existing.keys) (hindex : ∀ g ∈ groups, g.1 ∉ existing.keys)
    (hidx : (Dict.keys groups).Nodup)
    (hget : ∀ i, after i = (Dict.get? groups i).or (match Dict.get? pgs i with
      | some group => kept group
      | none => Dict.get? existing i)) (i : Nat) (s : Finset Nat) :
    after i = some s ↔ (i, s) ∈ groups ∨ ((i, s) ∈ pgs ∧ s.Nonempty) := by
  constructor
  · intro hs
    rw [hget] at hs
    cases hg : Dict.get? groups i with
    | some s' =>
        rw [hg, Option.some_or, Option.some.injEq] at hs
        exact Or.inl (Dict.mem_of_get?_eq_some (hs ▸ hg))
    | none =>
        rw [hg, Option.none_or] at hs
        cases hp : Dict.get? pgs i with
        | some t =>
            simp only [hp, kept] at hs
            split at hs
            · cases hs
            · next hcard =>
                obtain rfl := Option.some.inj hs
                refine Or.inr ⟨Dict.mem_of_get?_eq_some hp, ?_⟩
                exact Finset.card_pos.mp (Nat.pos_of_ne_zero hcard)
        | none =>
            -- every existing group is among the refilled ones
            simp only [hp] at hs
            rw [Dict.get?_eq_none_iff, hpgs, ← Dict.get?_eq_none_iff, hs] at hp
            cases hp
  · rintro (hg | ⟨hp, hne⟩)
    · rw [hget, Dict.get?_eq_some_of_mem hidx hg, Option.some_or]
    · have hvac : Dict.get? groups i = none := by
        rw [Dict.get?_eq_none_iff]
        intro hmem
        obtain ⟨g', hg', rfl⟩ := List.mem_map.mp hmem
        refine hindex g' hg' ?_
        rw [← hpgs]
        exact List.mem_map.mpr ⟨_, hp, rfl⟩
      rw [hget, hvac, Option.none_or, Dict.get?_eq_some_of_mem (hpgs ▸ hkeys) hp]
      simp [kept, Finset.card_eq_zero, hne.ne_empty]

end

/-- The groups of the cluster after both loops: the new ones, and the refilled ones that are not empty. -/
theorem applyBngPgs_result (limit : Nat) (existing : Dict Nat (Finset Nat)) (created : SortedSet)
    (deleted : Finset Nat) (hlimit : 1 ≤ limit) (hkeys : existing.keys.Nodup)
    (hdisjoint : existing.Pairwise fun a b => Disjoint a.2 b.2)
    (hcreated : ∀ e ∈ existing, ∀ w ∈ created.elems, w ∉ e.2) :
    ∃ pgs rest current groups, Refilled limit deleted existing created.elems pgs rest ∧
      Dict.keys pgs = existing.keys ∧ Created limit existing.keys current ∅ rest groups ∧
      creates (applyBngPgs limit existing created deleted) = groups ∧
      ∀ i s, (applyOps existing (applyBngPgs limit existing created deleted)).get? i = some s ↔
        (i, s) ∈ groups ∨ ((i, s) ∈ pgs ∧ s.Nonempty) := by
  have hn : created.elems.Nodup := created.sorted.imp fun h => Nat.ne_of_lt h
  have href := @refillPgs_refilled limit deleted existing created.elems hn hdisjoint hcreated
  have hpgs := @keys_refillPgs limit deleted existing created.elems
  have hreads := @get?_applyOps_refillPgs limit deleted existing created.elems existing hkeys
    (fun e he => Dict.get?_eq_some_of_mem hkeys he)
  have hnone := @creates_refillPgs limit deleted existing created.elems
  generalize hr : refillPgs limit deleted existing created.elems = r at href hpgs hreads hnone
  obtain ⟨ops, pgs, rest⟩ := r
  have hrest : rest.Nodup := hn.sublist href.suffix.sublist
  obtain ⟨current, groups, happly, hgroups⟩ := applyBngPgs_eq hlimit hr hpgs hrest
  have hidx : (Dict.keys groups).Nodup := by
    rw [Dict.keys, List.nodup_iff_pairwise_ne, List.pairwise_map]
    exact hgroups.ordered.imp fun h => Nat.ne_of_lt h
  refine ⟨pgs, rest, current, groups, href, hpgs, hgroups, by rw [happly, creates_append hnone], ?_⟩
  refine get?_after hkeys hpgs (fun g hg => (hgroups.bounds g hg).2.1) hidx fun i => ?_
  rw [happly, applyOps_append, get?_applyOps_creates groups _ hidx, hreads]

/-- What holds of the operations `ops` and of the groups `after` they leave. -/
structure PgsSound (limit : Nat) (existing : Dict Nat (Finset Nat)) (created : List Nat)
    (deleted : Finset Nat) (ops : List PgOp) (after : Dict Nat (Finset Nat)) : Prop where
  disjoint : ∀ i j s t, i ≠ j → after.get? i = some s → after.get? j = some t → Disjoint s t
  covers : ∀ w, (∃ i s, after.get? i = some s ∧ w ∈ s) ↔
    ((∃ i s, existing.get? i = some s ∧ w ∈ s) ∧ w ∉ deleted) ∨ w ∈ created
  no_empty : ∀ i s, after.get? i = some s → s.Nonempty
  within_limit : ∀ i s, after.get? i = some s → (∃ w ∈ s, w ∈ created) → s.card ≤ limit
  /-- No create uses the name of an existing group or of another create. -/
  names : ((existing.keys ++ (creates ops).map Prod.fst).map pgName).Nodup
  /-- Groups are created only when every group that survived is full. -/
  full : creates ops ≠ [] → ∀ i ∈ existing.keys, ∀ s, after.get? i = some s → limit ≤ s.card

/-- **Protection groups stay a partition.** -/
theorem applyBngPgs_sound (limit : Nat) (existing : Dict Nat (Finset Nat)) (created : SortedSet)
    (deleted : Finset Nat) (hlimit : 1 ≤ limit) (hkeys : existing.keys.Nodup)
    (hdisjoint : existing.Pairwise fun a b => Disjoint a.2 b.2)
    (hcreated : ∀ e ∈ existing, ∀ w ∈ created.elems, w ∉ e.2) :
    PgsSound limit existing created.elems deleted (applyBngPgs limit existing created deleted)
      (applyOps existing (applyBngPgs limit existing created deleted)) := by
  obtain ⟨pgs, rest, current, groups, href, hpgs, hgroups, hcreates, hafter⟩ :=
    applyBngPgs_result limit existing created deleted hlimit hkeys hdisjoint hcreated
  have hpgsnodup : (Dict.keys pgs).Nodup := hpgs ▸ hkeys
  -- a new group shares nothing with a refilled one
  have hcross : ∀ g ∈ groups, ∀ p ∈ pgs, Disjoint g.2 p.2 := by
    intro g hg p hp
    rw [Finset.disjoint_left]
    intro w hw
    have hrest : w ∈ rest := by simpa using (hgroups.covers w).mp ⟨g, hg, hw⟩
    exact href.rest_disjoint p hp w hrest
  have hindex : ∀ g ∈ groups, g.1 ∉ existing.keys := fun g hg => (hgroups.bounds g hg).2.1
  constructor
  · -- disjoint: both groups are new, both are refilled, or one of each
    intro i j s t hij hs ht
    rcases (hafter i s).mp hs with hs | ⟨hs, -⟩ <;> rcases (hafter j t).mp ht with ht | ⟨ht, -⟩
    · exact hgroups.disjoint.forall hs ht (fun h => hij (congrArg Prod.fst h))
    · exact hcross _ hs _ ht
    · exact (hcross _ ht _ hs).symm
    · exact href.disjoint.forall hs ht (fun h => hij (congrArg Prod.fst h))
  · -- covers: what the refilled groups do not take is in the new ones
    intro w
    rw [← Dict.exists_mem_iff hkeys (P := fun s => w ∈ s), ← href.covers]
    constructor
    · rintro ⟨i, s, hs, hw⟩
      rcases (hafter i s).mp hs with hs | ⟨hs, -⟩
      · exact Or.inr (by simpa using (hgroups.covers w).mp ⟨(i, s), hs, hw⟩)
      · exact Or.inl ⟨(i, s), hs, hw⟩
    · rintro (⟨g, hg, hw⟩ | hw)
      · exact ⟨g.1, g.2, (hafter _ _).mpr (Or.inr ⟨hg, ⟨w, hw⟩⟩), hw⟩
      · obtain ⟨g, hg, hwg⟩ := (hgroups.covers w).mpr (Or.inr hw)
        exact ⟨g.1, g.2, (hafter _ _).mpr (Or.inl hg), hwg⟩
  · -- no group is empty: a refilled one that would be is deleted
    intro i s hs
    rcases (hafter i s).mp hs with hs | ⟨-, hne⟩
    · exact (hgroups.bounds _ hs).2.2.1
    · exact hne
  · intro i s hs hex
    rcases (hafter i s).mp hs with hs | ⟨hs, -⟩
    · exact (hgroups.bounds _ hs).2.2.2
    · exact href.within _ hs hex
  · -- names: the existing ones in order, then new indices
    rw [hcreates]
    refine List.Nodup.map pgName_injective (List.nodup_append.mpr ⟨hkeys, ?_, ?_⟩)
    · rw [List.nodup_iff_pairwise_ne, List.pairwise_map]
      exact hgroups.ordered.imp fun h => Nat.ne_of_lt h
    · rintro i hi j hj rfl
      obtain ⟨g, hg, rfl⟩ := List.mem_map.mp hj
      exact hindex g hg hi
  · -- a new group has a workload that was left, so the refilled ones are full
    intro hne i hi s hs
    rw [hcreates] at hne
    rcases (hafter i s).mp hs with hs | ⟨hs, -⟩
    · exact absurd hi (hindex _ hs)
    · refine href.full ?_ _ hs
      rintro rfl
      obtain ⟨g, groups', rfl⟩ := List.exists_cons_of_ne_nil hne
      obtain ⟨w, hw⟩ := (hgroups.bounds g (List.mem_cons_self ..)).2.2.1
      simpa using (hgroups.covers w).mp ⟨g, List.mem_cons_self .., hw⟩

/-- Two groups of two and one, a workload deleted from the first, and three created. -/
theorem applyBngPgs_sound_sample :
    PgsSound 2 [(1, {1, 2}), (3, {3})] [4, 5, 6] {2}
      (applyBngPgs 2 [(1, {1, 2}), (3, {3})] ⟨[4, 5, 6], by decide⟩ {2})
      (applyOps [(1, {1, 2}), (3, {3})]
        (applyBngPgs 2 [(1, {1, 2}), (3, {3})] ⟨[4, 5, 6], by decide⟩ {2})) :=
  applyBngPgs_sound 2 [(1, {1, 2}), (3, {3})] ⟨[4, 5, 6], by decide⟩ {2} (by decide) (by decide)
    (by decide) (by decide)

end Workbench.Iface
