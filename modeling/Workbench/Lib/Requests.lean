import Workbench.Lib.Attempt

/-!
# `Lib.Requests` — first come, first served

A list of requests, each of one value for one slot, is served in order: a request is granted when its value is in the
pool and not used, and the value is used from then on. So exactly the first request for a free value is granted.

## Main results
* `EachFirst` — something holds of every request that is granted; `eachFirst_append` and `eachFirst_map` for longer
  lists and other slots;
* `Serves` — a computation that serves a list of requests: when it returns, which values are used then, and that the
  slots of the requests that were granted have their values;
* `Serves.bind`, `Serves.within`, `Serves.mapM` — sequences, parts of a larger value, loops.
-/

namespace Workbench

/-- A request of a value for a slot. Without a place for the value, granting the request raises. -/
structure Request (σ τ : Type) where
  slot : σ
  value : τ
  fits : Bool

namespace Request

variable {σ σ' σ'' τ : Type}

/-- The same request, for a slot of something larger. -/
def within (g : σ → σ') (r : Request σ τ) : Request σ' τ := ⟨g r.slot, r.value, r.fits⟩

theorem map_value_within (g : σ → σ') (rs : List (Request σ τ)) :
    (rs.map (within g)).map value = rs.map value := by
  rw [List.map_map]
  rfl

variable [DecidableEq τ] (inPool : τ → Bool)

/-! ## Which requests are granted -/

/-- The marks when the requests have been served. -/
def claimedBy (u : Marks τ) (rs : List (Request σ τ)) : Marks τ :=
  fun t => u t || (inPool t && decide (t ∈ rs.map value))

/-- The request `r` is granted after the requests `pre`. -/
def First (u : Marks τ) (pre : List (Request σ τ)) (r : Request σ τ) : Prop :=
  inPool r.value = true ∧ u r.value = false ∧ r.value ∉ pre.map value

/-- `P` holds of every request that is granted. -/
def EachFirst (u : Marks τ) (rs : List (Request σ τ)) (P : Request σ τ → Prop) : Prop :=
  ∀ pre r post, rs = pre ++ r :: post → First inPool u pre r → P r

variable {inPool} {u : Marks τ} {rs rs₁ rs₂ : List (Request σ τ)} {P : Request σ τ → Prop}

theorem claimedBy_nil : claimedBy inPool u ([] : List (Request σ τ)) = u := by
  funext t
  simp [claimedBy]

theorem claimedBy_append :
    claimedBy inPool u (rs₁ ++ rs₂) = claimedBy inPool (claimedBy inPool u rs₁) rs₂ := by
  funext t
  simp only [claimedBy, List.map_append, List.mem_append, Bool.decide_or, Bool.and_or_distrib_left, Bool.or_assoc]

theorem claimedBy_within (g : σ → σ') : claimedBy inPool u (rs.map (within g)) = claimedBy inPool u rs := by
  unfold claimedBy
  rw [map_value_within]

omit [DecidableEq τ] in
theorem eachFirst_nil : EachFirst inPool u ([] : List (Request σ τ)) P := by
  intro pre r post h
  cases pre with
  | nil => cases h
  | cons _ _ => cases h

omit [DecidableEq τ] in
theorem eachFirst_singleton {r : Request σ τ} :
    EachFirst inPool u [r] P ↔ (inPool r.value = true → u r.value = false → P r) := by
  constructor
  · intro h hpool hu
    exact h [] r [] rfl ⟨hpool, hu, by simp⟩
  · intro h pre r' post heq hfirst
    cases pre with
    | nil =>
        obtain ⟨rfl, -⟩ := List.cons.inj heq
        exact h hfirst.1 hfirst.2.1
    | cons _ pre =>
        have hnil := (List.cons.inj heq).2
        simp at hnil

omit [DecidableEq τ] in
theorem EachFirst.mono {P' : Request σ τ → Prop} (h : EachFirst inPool u rs P) (hp : ∀ r, P r → P' r) :
    EachFirst inPool u rs P' :=
  fun pre r post heq hfirst => hp r (h pre r post heq hfirst)

/-- The second requests are served with what the first ones have left. -/
theorem eachFirst_append :
    EachFirst inPool u (rs₁ ++ rs₂) P ↔
      EachFirst inPool u rs₁ P ∧ EachFirst inPool (claimedBy inPool u rs₁) rs₂ P := by
  constructor
  · intro h
    refine ⟨?_, ?_⟩
    · rintro pre r post rfl hfirst
      exact h pre r (post ++ rs₂) (by simp) hfirst
    · rintro pre r post rfl ⟨hpool, hfree, hpre⟩
      obtain ⟨hu, hnot⟩ : u r.value = false ∧ r.value ∉ rs₁.map value := by
        simpa [claimedBy, hpool] using hfree
      apply h (rs₁ ++ pre) r post (by simp)
      refine ⟨hpool, hu, ?_⟩
      rw [List.map_append, List.mem_append]
      rintro (h₁ | h₂)
      · exact hnot h₁
      · exact hpre h₂
  · rintro ⟨h₁, h₂⟩ pre r post heq ⟨hpool, hu, hpre⟩
    rcases List.append_eq_append_iff.mp heq with ⟨mid, rfl, hmid⟩ | ⟨mid, hmid, hpost⟩
    · -- `r` is one of the second requests
      rw [List.map_append, List.mem_append, not_or] at hpre
      apply h₂ mid r post hmid
      refine ⟨hpool, ?_, hpre.2⟩
      simp only [claimedBy, hpool, hu, hpre.1, Bool.true_and, Bool.false_or, decide_false]
    · cases mid with
      | nil =>
          rw [List.append_nil] at hmid
          subst hmid
          apply h₂ [] r post hpost.symm
          refine ⟨hpool, ?_, by simp⟩
          simp only [claimedBy, hpool, hu, hpre, Bool.true_and, Bool.false_or, decide_false]
      | cons r' mid =>
          obtain ⟨rfl, -⟩ := List.cons.inj hpost
          exact h₁ pre r mid hmid ⟨hpool, hu, hpre⟩

omit [DecidableEq τ] in
theorem eachFirst_within (g : σ → σ') {P : Request σ' τ → Prop} :
    EachFirst inPool u (rs.map (within g)) P ↔ EachFirst inPool u rs fun r => P (r.within g) := by
  constructor
  · rintro h pre r post rfl ⟨hpool, hu, hpre⟩
    apply h (pre.map (within g)) (r.within g) (post.map (within g)) (by simp)
    exact ⟨hpool, hu, by rwa [map_value_within]⟩
  · intro h pre r post heq ⟨hpool, hu, hpre⟩
    obtain ⟨pre', rest, rfl, rfl, hrest⟩ := List.map_eq_append_iff.mp heq
    obtain ⟨r', post', rfl, rfl, rfl⟩ := List.map_eq_cons_iff.mp hrest
    rw [map_value_within] at hpre
    exact h pre' r' post' rfl ⟨hpool, hu, hpre⟩

/-! ## The requests of a list -/

variable {α β ε : Type}

/-- The requests of the elements one after the other, with the position of the element in the slot. -/
def indexed (f : α → List (Request σ τ)) : List α → List (Request (Nat × σ) τ)
  | [] => []
  | x :: xs => (f x).map (within fun s => (0, s)) ++ (indexed f xs).map (within fun p => (p.1 + 1, p.2))

theorem eachFirst_indexed_cons {f : α → List (Request σ τ)} {x : α} {xs : List α}
    {P : Request (Nat × σ) τ → Prop} :
    EachFirst inPool u (indexed f (x :: xs)) P ↔
      EachFirst inPool u (f x) (fun r => P (r.within fun s => (0, s))) ∧
        EachFirst inPool (claimedBy inPool u (f x)) (indexed f xs)
          (fun r => P (r.within fun p => (p.1 + 1, p.2))) := by
  rw [indexed, eachFirst_append, eachFirst_within, eachFirst_within, claimedBy_within]

theorem claimedBy_indexed_cons {f : α → List (Request σ τ)} {x : α} {xs : List α} :
    claimedBy inPool u (indexed f (x :: xs)) = claimedBy inPool (claimedBy inPool u (f x)) (indexed f xs) := by
  rw [indexed, claimedBy_append, claimedBy_within, claimedBy_within]

/-- A slot of the element at a position. -/
def readAt (read : β → σ → Option τ) (ys : List β) (p : Nat × σ) : Option τ :=
  (ys[p.1]?).bind fun y => read y p.2

end Request

/-! ## Computations that serve requests -/

open Request

variable {ε σ σ' τ α β : Type}

/-- Slots that have a value keep it. -/
def Keeps (read : α → σ → Option τ) (x a : α) : Prop := ∀ s t, read x s = some t → read a s = some t

theorem Keeps.refl (read : α → σ → Option τ) (x : α) : Keeps read x x := fun _ _ h => h

theorem Keeps.trans {read : α → σ → Option τ} {x y z : α} (h₁ : Keeps read x y) (h₂ : Keeps read y z) :
    Keeps read x z :=
  fun s t h => h₂ s t (h₁ s t h)

theorem Keeps.isSome {read : α → σ → Option τ} {x a : α} (h : Keeps read x a) {s : σ}
    (hs : (read x s).isSome = true) : (read a s).isSome = true := by
  obtain ⟨t, ht⟩ := Option.isSome_iff_exists.mp hs
  rw [h s t ht]
  rfl

theorem Keeps.readAt {read : α → σ → Option τ} {xs ys : List α} (h : List.Forall₂ (Keeps read) xs ys) :
    Keeps (readAt read) xs ys := by
  induction h with
  | nil => exact Keeps.refl _ _
  | cons hxy _ ih =>
      rintro ⟨i, s⟩ t hread
      cases i with
      | zero => exact hxy s t hread
      | succ i => exact ih (i, s) t hread

variable [DecidableEq τ]

/-- The computation serves the requests `rs` for slots of `x`, and the result is what becomes of `x`. It returns if
    and only if it is `ready` and every request that is granted fits. Where `x` is `clean`, which means that the slots
    of the requests are empty, the slots have what was granted, and the others keep what they had. -/
structure Serves (inPool : τ → Bool) (read : α → σ → Option τ) (clean ready : Prop) (rs : List (Request σ τ))
    (x : α) (Q : α → Prop) (c : Attempt ε τ α) : Prop where
  returns : ∀ u, ready → EachFirst inPool u rs (fun r => r.fits = true) → ∃ a u', c u = .ok a u'
  sound : ∀ u a u', c u = .ok a u' → ready ∧ EachFirst inPool u rs (fun r => r.fits = true) ∧
    u' = claimedBy inPool u rs ∧ Q a ∧
      (clean → EachFirst inPool u rs (fun r => read a r.slot = some r.value) ∧ Keeps read x a)

namespace Serves

variable {inPool : τ → Bool} {read : α → σ → Option τ} {clean ready : Prop} {rs : List (Request σ τ)} {x : α}
  {Q : α → Prop} {c : Attempt ε τ α}

theorem pure {a : α} (hkeeps : Keeps read x a) (hQ : Q a) :
    Serves inPool read clean True [] x Q (pure a : Attempt ε τ α) where
  returns := fun u _ _ => ⟨a, u, rfl⟩
  sound := by
    intro u a' u' h
    cases h
    exact ⟨trivial, eachFirst_nil, claimedBy_nil.symm, hQ, fun _ => ⟨eachFirst_nil, hkeeps⟩⟩

theorem lift {y : Except ε α} (hready : ready ↔ ∃ a, y = .ok a)
    (h : ∀ a, y = .ok a → Keeps read x a ∧ Q a) :
    Serves inPool read clean ready [] x Q (Attempt.lift y : Attempt ε τ α) where
  returns := by
    intro u hr _
    obtain ⟨a, rfl⟩ := hready.mp hr
    exact ⟨a, u, rfl⟩
  sound := by
    intro u a u' hok
    cases y with
    | error e => cases hok
    | ok a' =>
        cases hok
        obtain ⟨hkeeps, hQ⟩ := h a rfl
        exact ⟨hready.mpr ⟨a, rfl⟩, eachFirst_nil, claimedBy_nil.symm, hQ, fun _ => ⟨eachFirst_nil, hkeeps⟩⟩

/-- A value that is not granted leaves everything as it is. -/
theorem claimedBy_singleton_of_not {u : Marks τ} {s : σ} {t : τ} {fits : Bool}
    (h : ¬ (inPool t && !u t) = true) : claimedBy inPool u [⟨s, t, fits⟩] = u := by
  funext t'
  by_cases ht : t' = t
  · subst ht
    cases hpool : inPool t' with
    | false => simp [claimedBy, hpool]
    | true =>
        have hu : u t' = true := by simpa [hpool] using h
        simp [claimedBy, hu]
  · simp [claimedBy, ht]

theorem claimedBy_singleton_of {u : Marks τ} {s : σ} {t : τ} {fits : Bool} (hpool : inPool t = true) :
    claimedBy inPool u [⟨s, t, fits⟩] = u.add t := by
  funext t'
  by_cases ht : t' = t
  · subst ht
    simp [Marks.add, claimedBy, hpool]
  · simp [Marks.add, claimedBy, ht]

theorem reclaim {s : σ} {t : τ} {fits : Bool} {y : Except ε α} (hfits : fits = true ↔ ∃ a, y = .ok a)
    (hset : ∀ a, y = .ok a → Q a ∧ (clean → read a s = some t ∧ Keeps read x a)) (hQ : Q x) :
    Serves inPool read clean True [⟨s, t, fits⟩] x Q (Attempt.reclaim (inPool t) t y x) where
  returns := by
    intro u _ hfit
    unfold Attempt.reclaim
    by_cases hcond : (inPool t && !u t) = true
    · obtain ⟨hpool, hu⟩ : inPool t = true ∧ u t = false := by simpa using hcond
      obtain ⟨a, rfl⟩ := hfits.mp (eachFirst_singleton.mp hfit hpool hu)
      rw [if_pos hcond]
      exact ⟨a, _, rfl⟩
    · rw [if_neg hcond]
      exact ⟨x, u, rfl⟩
  sound := by
    intro u a u' h
    unfold Attempt.reclaim at h
    by_cases hcond : (inPool t && !u t) = true
    · obtain ⟨hpool, -⟩ : inPool t = true ∧ u t = false := by simpa using hcond
      rw [if_pos hcond] at h
      cases y with
      | error e => cases h
      | ok a' =>
          cases h
          obtain ⟨hq, hclean⟩ := hset a rfl
          refine ⟨trivial, ?_, (claimedBy_singleton_of hpool).symm, hq, ?_⟩
          · exact eachFirst_singleton.mpr fun _ _ => hfits.mpr ⟨a, rfl⟩
          · intro hc
            obtain ⟨hread, hkeeps⟩ := hclean hc
            exact ⟨eachFirst_singleton.mpr fun _ _ => hread, hkeeps⟩
    · rw [if_neg hcond] at h
      cases h
      have hnot {P : Prop} : inPool t = true → u t = false → P := by
        intro hpool hu
        exact absurd (by rw [hpool, hu]; rfl) hcond
      refine ⟨trivial, eachFirst_singleton.mpr hnot, (claimedBy_singleton_of_not hcond).symm, hQ, ?_⟩
      intro _
      exact ⟨eachFirst_singleton.mpr hnot, Keeps.refl read _⟩

/-- One after the other. -/
theorem bind {ready' : Prop} {rs' : List (Request σ τ)} {Q' : α → Prop} {k : α → Attempt ε τ α}
    (hc : Serves inPool read clean ready rs x Q c)
    (hk : ∀ a, Q a → Serves inPool read clean ready' rs' a Q' (k a)) :
    Serves inPool read clean (ready ∧ ready') (rs ++ rs') x Q' (c >>= k) where
  returns := by
    rintro u ⟨hready, hready'⟩ hfit
    obtain ⟨hfit, hfit'⟩ := eachFirst_append.mp hfit
    obtain ⟨a, u', hca⟩ := hc.returns u hready hfit
    obtain ⟨-, -, rfl, hQ, -⟩ := hc.sound u a u' hca
    rw [Attempt.bind_ok hca]
    exact (hk a hQ).returns _ hready' hfit'
  sound := by
    intro u b u'' h
    obtain ⟨a, u', hca, hkb⟩ := Attempt.bind_eq_ok.mp h
    obtain ⟨hready, hfit, rfl, hQ, hclean⟩ := hc.sound u a u' hca
    obtain ⟨hready', hfit', rfl, hQ', hclean'⟩ := (hk a hQ).sound _ b u'' hkb
    refine ⟨⟨hready, hready'⟩, eachFirst_append.mpr ⟨hfit, hfit'⟩, claimedBy_append.symm, hQ', ?_⟩
    intro hcl
    obtain ⟨hread, hkeeps⟩ := hclean hcl
    obtain ⟨hread', hkeeps'⟩ := hclean' hcl
    refine ⟨?_, hkeeps.trans hkeeps'⟩
    exact eachFirst_append.mpr ⟨hread.mono fun r hr => hkeeps' r.slot r.value hr, hread'⟩

/-- The result is a part of something larger, whose slots are those of the part and others. -/
theorem within {read' : β → σ' → Option τ} {y : β} {Q' : β → Prop}
    (hc : Serves inPool read clean ready rs x Q c) (g : σ → σ') (set : α → β)
    (hread : ∀ a s, read' (set a) (g s) = read a s)
    (hkeeps : ∀ a, Keeps read x a → Keeps read' y (set a)) (hQ : ∀ a, Q a → Q' (set a)) :
    Serves inPool read' clean ready (rs.map (Request.within g)) y Q' (do let a ← c; return set a) where
  returns := by
    intro u hready hfit
    obtain ⟨a, u', hca⟩ := hc.returns u hready ((eachFirst_within g).mp hfit)
    exact ⟨set a, u', Attempt.bind_ok hca⟩
  sound := by
    intro u b u' h
    obtain ⟨a, u₁, hca, hb⟩ := Attempt.bind_eq_ok.mp h
    cases hb
    obtain ⟨hready, hfit, hmarks, hq, hclean⟩ := hc.sound u a u' hca
    refine ⟨hready, (eachFirst_within g).mpr hfit, ?_, hQ a hq, ?_⟩
    · rw [claimedBy_within, hmarks]
    · intro hcl
      obtain ⟨hfirst, hk⟩ := hclean hcl
      refine ⟨?_, hkeeps a hk⟩
      apply (eachFirst_within (P := fun r => read' (set a) r.slot = some r.value) g).mpr
      intro pre r post heq hf
      show read' (set a) (g r.slot) = some r.value
      rw [hread]
      exact hfirst pre r post heq hf

theorem congr {ready' : Prop} {rs' : List (Request σ τ)} {Q' : α → Prop}
    (hc : Serves inPool read clean ready rs x Q c) (hready : ready ↔ ready') (hrs : rs = rs')
    (hQ : ∀ a, Q a → Q' a) : Serves inPool read clean ready' rs' x Q' c where
  returns := by
    intro u hr hfit
    exact hc.returns u (hready.mpr hr) (hrs ▸ hfit)
  sound := by
    intro u a u' h
    obtain ⟨hr, hfit, hmarks, hq, hclean⟩ := hc.sound u a u' h
    subst hrs
    exact ⟨hready.mp hr, hfit, hmarks, hQ a hq, hclean⟩

/-- A loop serves the requests of all elements. -/
theorem mapM {read : β → σ → Option τ} {ready : α → Prop} {requests : α → List (Request σ τ)} {init : α → β}
    {Q : α → β → Prop} {f : α → Attempt ε τ β} :
    ∀ {xs : List α}, (∀ x ∈ xs, Serves inPool read clean (ready x) (requests x) (init x) (Q x) (f x)) →
      Serves inPool (readAt read) clean (∀ x ∈ xs, ready x) (indexed requests xs) (xs.map init)
        (fun ys => List.Forall₂ Q xs ys) (xs.mapM f)
  | [], _ => by
      rw [List.mapM_nil]
      apply (Serves.pure (Keeps.refl _ _) List.Forall₂.nil).congr
      · simp
      · rfl
      · intro ys hys
        exact hys
  | x :: xs, h => by
      have hx := h x List.mem_cons_self
      have hxs := Serves.mapM fun x' hx' => h x' (List.mem_cons_of_mem x hx')
      rw [List.mapM_cons]
      constructor
      · intro u hready hfit
        obtain ⟨hfit, hfit'⟩ := eachFirst_indexed_cons.mp hfit
        obtain ⟨y, u', hy⟩ := hx.returns u (hready x List.mem_cons_self) hfit
        obtain ⟨-, -, rfl, -⟩ := hx.sound u y u' hy
        obtain ⟨ys, u'', hys⟩ := hxs.returns _ (fun x' hx' => hready x' (List.mem_cons_of_mem x hx')) hfit'
        exact ⟨y :: ys, u'', by rw [Attempt.bind_ok hy, Attempt.bind_ok hys]; rfl⟩
      · intro u zs u'' hok
        obtain ⟨y, u₁, hy, hrest⟩ := Attempt.bind_eq_ok.mp hok
        obtain ⟨ys, u₂, hys, hpure⟩ := Attempt.bind_eq_ok.mp hrest
        cases hpure
        obtain ⟨hr, hfit, rfl, hq, hclean⟩ := hx.sound u y u₁ hy
        obtain ⟨hr', hfit', rfl, hq', hclean'⟩ := hxs.sound _ ys u'' hys
        refine ⟨?_, eachFirst_indexed_cons.mpr ⟨hfit, hfit'⟩, claimedBy_indexed_cons.symm, .cons hq hq', ?_⟩
        · intro x' hx'
          rcases List.mem_cons.mp hx' with rfl | hx'
          · exact hr
          · exact hr' x' hx'
        · intro hcl
          obtain ⟨hfirst, hkeeps⟩ := hclean hcl
          obtain ⟨hfirst', hkeeps'⟩ := hclean' hcl
          refine ⟨eachFirst_indexed_cons.mpr ⟨hfirst, hfirst'⟩, ?_⟩
          rintro ⟨i, s⟩ t hread
          cases i with
          | zero => exact hkeeps s t hread
          | succ i => exact hkeeps' (i, s) t hread

end Serves

end Workbench
