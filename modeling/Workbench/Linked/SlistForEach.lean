import Workbench.Lib.ForEach
import Workbench.Linked.Chain

/-!
# `Linked.SlistForEach` — the walk over a range

The walk compares its place with the end of the range, and gives the action the data of the start of the range each
time. What it returns is 0 whatever the action returns.

## Main results
* `WellFormed.forEachLoop` — the action is applied to the first element as often as there are elements;
* `slistForEach_calls_iff` — the ranges and actions for which this is what is asked for.
-/

namespace Workbench.SinglyLinked

variable {α σ : Type} {memory : Memory α} {list dummy from_ p : Nat} {d : Data α} {e : Nat × Data α}
  {xs ys range : List (Nat × Data α)} {action : Data α → σ → Int × σ}

/-! ## Where the walk is -/

/-- **The next nodes differ**, at an element and behind it. -/
theorem WellFormed.next_ne (h : WellFormed memory ⟨list, xs ++ e :: ys, dummy⟩)
    (hp : p ∈ (Chain.mk list ys dummy).nodes) : slistNext memory e.1 ≠ slistNext memory p := by
  have hsegment := (segment_append.mp h.segment).2
  have hnext : slistNext memory e.1 = _ := Points.leadsTo hsegment.1
  rw [hnext]
  intro heq
  rcases List.mem_append.mp hp with hp | hp
  · obtain ⟨e', he', rfl⟩ := List.mem_map.mp hp
    obtain ⟨us, vs, rfl⟩ := List.append_of_mem he'
    have hnext' : slistNext memory e'.1 = _ := Points.leadsTo (segment_append.mp hsegment.2).2.1
    have hstart : start (us ++ e' :: vs) dummy = start vs dummy := by
      exact Option.some.inj (Option.some.inj (heq.trans hnext'))
    -- one is up to the element, the other behind it
    have hnodes : (Chain.mk list (xs ++ e :: (us ++ e' :: vs)) dummy).nodes =
        (xs.map Prod.fst ++ [e.1]) ++ ((us.map Prod.fst ++ [e'.1]) ++ (vs.map Prod.fst ++ [dummy])) := by
      simp [Chain.nodes]
    have hnodup := h.nodup
    rw [hnodes] at hnodup
    have hdisjoint := (List.nodup_append.mp (List.nodup_append.mp hnodup).2.1).2.2
    refine hdisjoint _ ?_ _ (Chain.start_mem ⟨list, vs, dummy⟩) hstart
    rw [start_append]
    exact Chain.start_mem ⟨list, us, e'.1⟩
  · rw [List.mem_singleton.mp hp, slistNext, h.dummy] at heq
    cases heq

theorem WellFormed.next_isSome (h : WellFormed memory ⟨list, xs, dummy⟩)
    (hp : p ∈ (Chain.mk list xs dummy).nodes) : ∃ next, slistNext memory p = some next := by
  obtain ⟨node, hnode⟩ := h.deref_isSome hp
  exact ⟨node.nextNode, by rw [slistNext, hnode, Option.map_some]⟩

/-- **The loop**: the action is applied to the first data, once for each element, until it fails. -/
theorem WellFormed.forEachLoop (h : WellFormed memory ⟨list, xs ++ (range ++ ys), dummy⟩)
    (hfrom : slistGetData memory from_ = some d) (action : Data α → σ → Int × σ) {turns : Nat}
    (hturns : range.length < turns) (param : σ) :
    slistForEachLoop memory from_ (start ys dummy) action turns (start (range ++ ys) dummy) param =
      some (forEach action (List.replicate range.length d) param).2 := by
  induction range generalizing xs turns param with
  | nil =>
      cases turns with
      | zero => omega
      | succ turns =>
          obtain ⟨next, hnext⟩ := h.next_isSome (Chain.start_mem_append list xs ys dummy)
          simp only [List.nil_append, slistForEachLoop, slistIsSameIter, hnext, bind, Option.bind_some, pure,
            decide_true, if_true, List.length_nil, List.replicate_zero, forEach]
  | cons e range ih =>
      cases turns with
      | zero => omega
      | succ turns =>
          have hnext : slistNext memory e.1 = _ := Points.leadsTo (segment_append.mp h.segment).2.1
          have hne := h.next_ne (Chain.start_mem_append list range ys dummy)
          obtain ⟨next, hto⟩ : ∃ next, slistNext memory (start ys dummy) = some next := by
            refine h.next_isSome ?_
            rw [← List.append_assoc]
            exact Chain.start_mem_append list (xs ++ e :: range) ys dummy
          rw [hnext, hto, ne_eq, Option.some.injEq] at hne
          have hchain : WellFormed memory ⟨list, (xs ++ [e]) ++ (range ++ ys), dummy⟩ := by
            rw [List.append_assoc]
            exact h
          simp only [List.cons_append, start_cons, slistForEachLoop, slistIsSameIter, hnext, hto, bind,
            Option.bind_some, pure, hne, decide_false, Bool.false_eq_true, if_false, hfrom, List.length_cons,
            List.replicate_succ, forEach]
          split
          · exact ih hchain (Nat.lt_of_succ_lt_succ hturns) _
          · rfl

/-! ## What the walk is to do -/

/-- The `result` of `SlistForEach`, which is 0 at the start and not assigned to, and the parameter. -/
def slistForEachResult (memory : Memory α) (from_ to_ : Nat) (action : Data α → σ → Int × σ) (param : σ) :
    Option (Int × σ) :=
  (slistForEach memory from_ to_ action param).map fun param => (0, param)

/-- The walk returns what it is to return, and applies the action to what it is to be applied to. -/
def Calls (memory : Memory α) (from_ to_ : Nat) (range : List (Nat × Data α)) (action : Data α → σ → Int × σ)
    (param : σ) : Prop :=
  slistForEachResult memory from_ to_ (logged action) (param, []) =
    some (forEach (logged action) (range.map Prod.snd) (param, []))

/-- **The run of the walk.** -/
theorem WellFormed.forEachResult (h : WellFormed memory ⟨list, xs ++ (e :: range ++ ys), dummy⟩)
    (action : Data α → σ → Int × σ) (param : σ) :
    slistForEachResult memory e.1 (start ys dummy) action param =
      some (0, (forEach action (List.replicate (e :: range).length e.2) param).2) := by
  have hpoints : deref memory e.1 = _ := (segment_append.mp h.segment).2.1
  have hfrom : slistGetData memory e.1 = some e.2 := by rw [slistGetData, hpoints, Option.map_some]
  have hlength := h.length_lt
  simp only [List.length_append] at hlength
  have hturns : (e :: range).length < memory.nodes.length := by omega
  rw [slistForEachResult, slistForEach]
  exact congrArg _ (h.forEachLoop hfrom action hturns param)

/-- The range of no elements. -/
theorem WellFormed.forEachResult_nil (h : WellFormed memory ⟨list, xs ++ ys, dummy⟩) (action : Data α → σ → Int × σ)
    (param : σ) :
    slistForEachResult memory (start ys dummy) (start ys dummy) action param = some (0, param) := by
  obtain ⟨node, hnode⟩ := h.deref_isSome (Chain.start_mem_append list xs ys dummy)
  have hfrom : slistGetData memory (start ys dummy) = some node.data := by rw [slistGetData, hnode, Option.map_some]
  have hchain : WellFormed memory ⟨list, xs ++ ([] ++ ys), dummy⟩ := h
  have hturns : ([] : List (Nat × Data α)).length < memory.nodes.length :=
    Nat.lt_of_le_of_lt (Nat.zero_le _) h.length_lt
  rw [slistForEachResult, slistForEach]
  exact congrArg _ (hchain.forEachLoop hfrom action hturns param)

/-- **What the walk calls**: the action is applied to each element of the range, in order and up to the first that
fails, and its status is returned, exactly when all elements of the range have the same data and none fails. -/
theorem slistForEach_calls_iff (h : WellFormed memory ⟨list, xs ++ (range ++ ys), dummy⟩)
    (action : Data α → σ → Int × σ) (param : σ) :
    Calls memory (start (range ++ ys) dummy) (start ys dummy) range action param ↔
      (∀ e ∈ range, ∀ e' ∈ range, e.2 = e'.2) ∧ (forEach action (range.map Prod.snd) param).1 = 0 := by
  unfold Calls
  cases range with
  | nil =>
      refine iff_of_true (h.forEachResult_nil (logged action) (param, [])) ⟨?_, rfl⟩
      intro e he
      exact absurd he List.not_mem_nil
  | cons e range =>
      have hresult := h.forEachResult (logged action) (param, [])
      rw [List.cons_append, start_cons, hresult, Option.some.injEq, forEach_logged, forEach_logged]
      simp only [Prod.mk.injEq, List.nil_append]
      constructor
      · rintro ⟨hstatus, -, happlied⟩
        rw [applied_eq hstatus.symm] at happlied
        have hdata : ∀ u ∈ e :: range, u.2 = e.2 := by
          intro u hu
          have hmem := happlied ▸ List.mem_map_of_mem (f := Prod.snd) hu
          exact List.eq_of_mem_replicate ((applied_isPrefix _ _ _).subset hmem)
        exact ⟨fun u hu v hv => (hdata u hu).trans (hdata v hv).symm, hstatus.symm⟩
      · rintro ⟨hdata, hstatus⟩
        have hreplicate : (e :: range).map Prod.snd = List.replicate (e :: range).length e.2 := by
          refine List.eq_replicate_iff.mpr ⟨List.length_map _, fun d hd => ?_⟩
          obtain ⟨u, hu, rfl⟩ := List.mem_map.mp hd
          exact hdata u hu e List.mem_cons_self
        rw [← hreplicate]
        exact ⟨hstatus.symm, rfl, rfl⟩

/-- A range of one element, which is counted. -/
theorem slistForEach_calls_one : Calls pairMemory 10 11 [(10, .user 7)] countNode 0 := by
  have hwell : WellFormed pairMemory ⟨1, [] ++ ([(10, .user 7)] ++ [(11, .user 8)]), 12⟩ := pairMemory_wellFormed
  refine (slistForEach_calls_iff hwell countNode 0).mpr ⟨?_, by decide⟩
  simp only [List.mem_singleton, forall_eq]

/-- The two elements of a list: the action gets the first one twice. -/
theorem slistForEach_repeats_first : ¬ ∀ (memory : Memory Nat) (list dummy : Nat) (xs range ys : List (Nat × Data Nat)),
    WellFormed memory ⟨list, xs ++ (range ++ ys), dummy⟩ → ∀ (action : Data Nat → Nat → Int × Nat) (param : Nat),
      Calls memory (start (range ++ ys) dummy) (start ys dummy) range action param := by
  intro hcalls
  have hboth := hcalls pairMemory 1 12 [] [(10, .user 7), (11, .user 8)] [] pairMemory_wellFormed countNode 0
  unfold Calls at hboth
  revert hboth
  decide

end Workbench.SinglyLinked
