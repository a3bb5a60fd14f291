import Mathlib.Logic.Function.Basic
import Workbench.Lib.Links

/-!
# `Lib.Splice` — lists in one memory

Several lists are linked both ways and share no node. A range of one of them is cut out, and pasted at a place of any of
them: six links change.

## Main results
* `LinkedAll.cut`, `LinkedAll.paste` — the two steps, with two and with four links;
* `LinkedAll.splice` — both at once;
* `LinkedAll.next_of_split`, `LinkedAll.prev_of_split` — the links of neighbours.
-/

namespace Workbench

variable {ι π : Type} {next prev : π → Option π} {lists : ι → List π} {l r mid l' r' : List π} {s d : ι}
  {a b u v w x z : π}

/-- **The lists are linked**, each node in one of them, once. -/
structure LinkedAll (next prev : π → Option π) (lists : ι → List π) : Prop where
  links (i : ι) : Links next prev (lists i)
  nodup (i : ι) : (lists i).Nodup
  apart (i j : ι) (p : π) : p ∈ lists i → p ∈ lists j → i = j

/-- The links between two neighbours. -/
theorem LinkedAll.link_of_split (h : LinkedAll next prev lists) (hs : lists s = l ++ x :: z :: r) :
    Link next prev x z := by
  have hlinks := h.links s
  rw [hs] at hlinks
  exact (List.isChain_append_cons_cons.mp hlinks).2.1

/-- The links are those of each list. -/
theorem LinkedAll.congr {next' prev' : π → Option π} (h : LinkedAll next prev lists) (hnext : next' = next)
    (hprev : prev' = prev) : LinkedAll next' prev' lists := by
  subst hnext hprev
  exact h

/-! ## Cutting -/

theorem perm_middle_part (l mid r : List π) (x z : π) :
    (l ++ x :: (mid ++ z :: r)).Perm (mid ++ (l ++ x :: z :: r)) := by
  have hswap : (x :: (mid ++ z :: r)).Perm (mid ++ x :: z :: r) := List.perm_middle.symm
  refine (hswap.append_left l).trans ?_
  rw [← List.append_assoc, ← List.append_assoc]
  exact List.perm_append_comm.append_right _

/-- A range and what is around it share no node. -/
theorem nodup_middle_parts (h : (l ++ x :: (mid ++ z :: r)).Nodup) :
    (l ++ x :: z :: r).Nodup ∧ mid.Nodup ∧ ∀ p ∈ mid, p ∉ l ++ x :: z :: r := by
  obtain ⟨hmid, hrest, hdisjoint⟩ := List.nodup_append.mp ((perm_middle_part l mid r x z).nodup_iff.mp h)
  exact ⟨hrest, hmid, fun p hp hp' => hdisjoint p hp p hp' rfl⟩

variable [DecidableEq π] [DecidableEq ι]

/-- **A range is cut out.** -/
theorem links_cut (h : Links next prev (l ++ x :: (mid ++ z :: r))) (hnodup : (l ++ x :: (mid ++ z :: r)).Nodup) :
    Links (Function.update next x (some z)) (Function.update prev z (some x)) (l ++ x :: z :: r) ∧
      Links (Function.update next x (some z)) (Function.update prev z (some x)) mid := by
  obtain ⟨hrest, -, hfresh⟩ := nodup_middle_parts hnodup
  obtain ⟨hl, hmidr⟩ := List.isChain_split.mp h
  obtain ⟨hmid, hr, -⟩ := List.isChain_append.mp (List.isChain_cons.mp hmidr).2
  have hnext : ∀ p, p ≠ x → Function.update next x (some z) p = next p := fun p hp => Function.update_of_ne hp _ _
  have hprev : ∀ p, p ≠ z → Function.update prev z (some x) p = prev p := fun p hp => Function.update_of_ne hp _ _
  constructor
  · obtain ⟨hl', hr'⟩ := links_parts hl hr hrest (fun p _ => hnext p) fun p _ => hprev p
    exact List.isChain_append_cons_cons.mpr ⟨hl', ⟨Function.update_self _ _ _, Function.update_self _ _ _⟩, hr'⟩
  · refine Links.transport hmid (fun p hp => hnext p ?_) fun p hp => hprev p ?_
    · rintro rfl
      exact hfresh p ((List.dropLast_sublist mid).subset hp) (by simp)
    · rintro rfl
      exact hfresh p (List.mem_of_mem_tail hp) (by simp)

/-- The other lists stay as they are. -/
theorem LinkedAll.cut (h : LinkedAll next prev lists) (hs : lists s = l ++ x :: (mid ++ z :: r)) :
    LinkedAll (Function.update next x (some z)) (Function.update prev z (some x))
        (Function.update lists s (l ++ x :: z :: r)) ∧
      Links (Function.update next x (some z)) (Function.update prev z (some x)) mid ∧ mid.Nodup ∧
      ∀ i, ∀ p ∈ mid, p ∉ Function.update lists s (l ++ x :: z :: r) i := by
  have hlinks := h.links s
  have hnodup := h.nodup s
  rw [hs] at hlinks hnodup
  obtain ⟨hrest, hmid, hfresh⟩ := nodup_middle_parts hnodup
  obtain ⟨hlinks', hmid'⟩ := links_cut hlinks hnodup
  -- what is left of the list is in the list
  have hsub : ∀ i p, p ∈ Function.update lists s (l ++ x :: z :: r) i → p ∈ lists i := by
    intro i p hp
    by_cases hi : i = s
    · subst hi
      rw [Function.update_self] at hp
      rw [hs]
      rcases List.mem_append.mp hp with hp | hp
      · exact List.mem_append_left _ hp
      · rcases List.mem_cons.mp hp with rfl | hp <;> simp_all
    · rwa [Function.update_of_ne hi] at hp
  have houter : ∀ i, i ≠ s → ∀ p ∈ lists i, p ∉ l ++ x :: (mid ++ z :: r) := by
    intro i hi p hp hp'
    exact hi (h.apart i s p hp (hs ▸ hp'))
  refine ⟨⟨fun i => ?_, fun i => ?_, fun i j p hi hj => h.apart i j p (hsub i p hi) (hsub j p hj)⟩, hmid', hmid,
    fun i p hp hp' => ?_⟩
  · by_cases hi : i = s
    · subst hi
      rwa [Function.update_self]
    · rw [Function.update_of_ne hi]
      refine Links.transport (h.links i) (fun p hp => Function.update_of_ne ?_ _ _) fun p hp =>
        Function.update_of_ne ?_ _ _
      · rintro rfl
        exact houter i hi p ((List.dropLast_sublist _).subset hp) (by simp)
      · rintro rfl
        exact houter i hi p (List.mem_of_mem_tail hp) (by simp)
  · by_cases hi : i = s
    · subst hi
      rwa [Function.update_self]
    · rw [Function.update_of_ne hi]
      exact h.nodup i
  · by_cases hi : i = s
    · subst hi
      rw [Function.update_self] at hp'
      exact hfresh p hp hp'
    · rw [Function.update_of_ne hi] at hp'
      exact houter i hi p hp' (by simp [hp])

/-! ## Pasting -/

/-- **A range is pasted.** -/
theorem links_paste (h : Links next prev (l ++ v :: w :: r)) (hmid : Links next prev mid)
    (hnodup : (l ++ v :: (mid ++ w :: r)).Nodup) (ha : mid.head? = some a) (hb : mid.getLast? = some b) :
    Links (Function.update (Function.update next b (some w)) v (some a))
      (Function.update (Function.update prev a (some v)) w (some b)) (l ++ v :: (mid ++ w :: r)) := by
  obtain ⟨hrest, hmidnodup, hfresh⟩ := nodup_middle_parts hnodup
  obtain ⟨hl, -, hr⟩ := List.isChain_append_cons_cons.mp h
  have hamem : a ∈ mid := List.mem_of_mem_head? ha
  have hbmem : b ∈ mid := List.mem_of_getLast? hb
  have hbv : b ≠ v := by
    rintro rfl
    exact hfresh b hbmem (by simp)
  have haw : a ≠ w := by
    rintro rfl
    exact hfresh a hamem (by simp)
  have hnext : ∀ p, p ≠ v → p ≠ b →
      Function.update (Function.update next b (some w)) v (some a) p = next p := by
    intro p hpv hpb
    rw [Function.update_of_ne hpv, Function.update_of_ne hpb]
  have hprev : ∀ p, p ≠ w → p ≠ a →
      Function.update (Function.update prev a (some v)) w (some b) p = prev p := by
    intro p hpw hpa
    rw [Function.update_of_ne hpw, Function.update_of_ne hpa]
  obtain ⟨hl', hr'⟩ := links_parts hl hr hrest
    (fun p hp hpv => hnext p hpv fun hpb => hfresh b hbmem (hpb ▸ hp))
    (fun p hp hpw => hprev p hpw fun hpa => hfresh a hamem (hpa ▸ hp))
  have hmid' : Links (Function.update (Function.update next b (some w)) v (some a))
      (Function.update (Function.update prev a (some v)) w (some b)) mid := by
    refine Links.transport hmid (fun p hp => hnext p ?_ ?_) fun p hp => hprev p ?_ ?_
    · rintro rfl
      exact hfresh p ((List.dropLast_sublist mid).subset hp) (by simp)
    · -- the last one is in the range once
      rintro rfl
      obtain ⟨init, rfl⟩ := List.getLast?_eq_some_iff.mp hb
      rw [List.dropLast_concat] at hp
      exact (List.nodup_append.mp hmidnodup).2.2 p hp p List.mem_cons_self rfl
    · rintro rfl
      exact hfresh p (List.mem_of_mem_tail hp) (by simp)
    · rintro rfl
      obtain ⟨tail, rfl⟩ := List.head?_eq_some_iff.mp ha
      exact (List.nodup_cons.mp hmidnodup).1 hp
  have hmidr : Links (Function.update (Function.update next b (some w)) v (some a))
      (Function.update (Function.update prev a (some v)) w (some b)) (mid ++ w :: r) := by
    refine hmid'.append hr' fun p hp q hq => ?_
    obtain rfl := Option.some.inj (hb.symm.trans hp)
    obtain rfl := Option.some.inj hq
    exact ⟨(Function.update_of_ne hbv _ _).trans (Function.update_self _ _ _), Function.update_self _ _ _⟩
  rw [← List.singleton_append, ← List.append_assoc]
  refine hl'.append hmidr fun p hp q hq => ?_
  rw [List.getLast?_concat] at hp
  rw [List.head?_append_of_ne_nil _ (List.ne_nil_of_mem hamem), ha] at hq
  obtain rfl := Option.some.inj hp
  obtain rfl := Option.some.inj hq
  exact ⟨Function.update_self _ _ _, (Function.update_of_ne haw _ _).trans (Function.update_self _ _ _)⟩

/-- The range comes from outside of the lists. -/
theorem LinkedAll.paste (h : LinkedAll next prev lists) (hd : lists d = l ++ v :: w :: r) (hmid : Links next prev mid)
    (hnodup : mid.Nodup) (hfresh : ∀ i, ∀ p ∈ mid, p ∉ lists i) (ha : mid.head? = some a)
    (hb : mid.getLast? = some b) :
    LinkedAll (Function.update (Function.update next b (some w)) v (some a))
      (Function.update (Function.update prev a (some v)) w (some b))
      (Function.update lists d (l ++ v :: (mid ++ w :: r))) := by
  have hlinks := h.links d
  have hnodupd := h.nodup d
  have hfreshd := hfresh d
  rw [hd] at hlinks hnodupd hfreshd
  have hperm := perm_middle_part l mid r v w
  have hnodup' : (l ++ v :: (mid ++ w :: r)).Nodup := by
    refine hperm.nodup_iff.mpr (List.nodup_append.mpr ⟨hnodup, hnodupd, ?_⟩)
    rintro p hp q hq rfl
    exact hfreshd p hp hq
  have hamem : a ∈ mid := List.mem_of_mem_head? ha
  have hbmem : b ∈ mid := List.mem_of_getLast? hb
  -- what is in the list now was in it, or in the range
  have hmem : ∀ i p, p ∈ Function.update lists d (l ++ v :: (mid ++ w :: r)) i → p ∈ lists i ∨ (p ∈ mid ∧ i = d) := by
    intro i p hp
    by_cases hi : i = d
    · subst hi
      rw [Function.update_self] at hp
      rcases List.mem_append.mp (hperm.mem_iff.mp hp) with hp | hp
      · exact .inr ⟨hp, rfl⟩
      · exact .inl (hd ▸ hp)
    · rw [Function.update_of_ne hi] at hp
      exact .inl hp
  refine ⟨fun i => ?_, fun i => ?_, fun i j p hi hj => ?_⟩
  · by_cases hi : i = d
    · subst hi
      rw [Function.update_self]
      exact links_paste hlinks hmid hnodup' ha hb
    · rw [Function.update_of_ne hi]
      have houter : ∀ p ∈ lists i, p ∉ l ++ v :: w :: r := fun p hp hp' => hi (h.apart i d p hp (hd ▸ hp'))
      refine Links.transport (h.links i) (fun p hp => ?_) fun p hp => ?_
      · have hp := (List.dropLast_sublist _).subset hp
        rw [Function.update_of_ne, Function.update_of_ne]
        · exact fun hpb => hfresh i b hbmem (hpb ▸ hp)
        · exact fun hpv => houter p hp (by simp [hpv])
      · have hp := List.mem_of_mem_tail hp
        rw [Function.update_of_ne, Function.update_of_ne]
        · exact fun hpa => hfresh i a hamem (hpa ▸ hp)
        · exact fun hpw => houter p hp (by simp [hpw])
  · by_cases hi : i = d
    · subst hi
      rwa [Function.update_self]
    · rw [Function.update_of_ne hi]
      exact h.nodup i
  · rcases hmem i p hi with hi | ⟨hpi, hid⟩
    · rcases hmem j p hj with hj | ⟨hpj, -⟩
      · exact h.apart i j p hi hj
      · exact absurd hi (hfresh i p hpj)
    · rcases hmem j p hj with hj | ⟨-, hjd⟩
      · exact absurd hj (hfresh j p hpi)
      · exact hid.trans hjd.symm

/-! ## Both -/

/-- **A range is moved** to a place that is not right behind it. -/
theorem LinkedAll.splice (h : LinkedAll next prev lists) (hs : lists s = l ++ x :: (mid ++ z :: r))
    (hd : Function.update lists s (l ++ x :: z :: r) d = l' ++ v :: w :: r') (ha : mid.head? = some a)
    (hb : mid.getLast? = some b) (hwz : w ≠ z) :
    LinkedAll (Function.update (Function.update (Function.update next b (some w)) v (some a)) x (some z))
      (Function.update (Function.update (Function.update prev a (some v)) w (some b)) z (some x))
      (Function.update (Function.update lists s (l ++ x :: z :: r)) d (l' ++ v :: (mid ++ w :: r'))) := by
  obtain ⟨hcut, hmid, hnodup, hfresh⟩ := h.cut hs
  have hxb : x ≠ b := by
    rintro rfl
    refine hfresh s x (List.mem_of_getLast? hb) ?_
    rw [Function.update_self]
    simp
  have hza : z ≠ a := by
    rintro rfl
    refine hfresh s z (List.mem_of_mem_head? ha) ?_
    rw [Function.update_self]
    simp
  have hxv : x ≠ v := by
    rintro rfl
    have hnext := (hcut.link_of_split hd).1
    rw [Function.update_self] at hnext
    exact hwz (Option.some.inj hnext).symm
  refine (hcut.paste hd hmid hnodup hfresh ha hb).congr ?_ ?_
  · rw [Function.update_comm hxb, Function.update_comm hxv]
  · rw [Function.update_comm hza, Function.update_comm hwz.symm]

end Workbench
