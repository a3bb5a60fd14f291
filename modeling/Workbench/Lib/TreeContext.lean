import Workbench.Lib.SearchTree

/-!
# `Lib.TreeContext` — places in a binary tree

A context is a tree with a hole, seen from the hole: what stands in front of the hole and what stands behind it, from
left to right.

## Main results
* `inorder_plug`, `exists_context` — contexts are the ways to split the tree from left to right;
* `place`, `place_split` — the walk down that goes left or right at each node, and the place to which it leads;
* `hang`, `inorder_hang` — a tree in front of the first node of another one.
-/

namespace Workbench.SearchTree

variable {β : Type}

/-- The nodes from left to right. -/
abbrev inorder (t : BinaryTree β) : List β := keys id t

/-- A tree with a hole. -/
inductive Context (β : Type)
  | root
  | left (e : β) (r : BinaryTree β) (above : Context β)
  | right (e : β) (l : BinaryTree β) (above : Context β)

/-- The tree with another one in the hole. -/
def plug : Context β → BinaryTree β → BinaryTree β
  | .root, t => t
  | .left e r above, t => plug above (.node e t r)
  | .right e l above, t => plug above (.node e l t)

def before : Context β → List β
  | .root => []
  | .left _ _ above => before above
  | .right e l above => before above ++ inorder l ++ [e]

def after : Context β → List β
  | .root => []
  | .left e r above => e :: inorder r ++ after above
  | .right _ _ above => after above

theorem inorder_plug (context : Context β) (t : BinaryTree β) :
    inorder (plug context t) = before context ++ inorder t ++ after context := by
  induction context generalizing t with
  | root => simp [plug, before, after]
  | left e r above ih => simp [plug, before, after, ih]
  | right e l above ih => simp [plug, before, after, ih]

/-- Each node has a context. -/
theorem exists_context {t : BinaryTree β} {xs ys : List β} {e : β} (h : inorder t = xs ++ e :: ys)
    (context : Context β) : ∃ context' l r, plug context t = plug context' (.node e l r) ∧
      before context' ++ inorder l = before context ++ xs ∧ inorder r ++ after context' = ys ++ after context := by
  induction t generalizing context xs ys with
  | nil => simp at h
  | node e' l r ihl ihr =>
      rw [inorder, keys_node] at h
      rcases List.append_eq_append_iff.mp h with ⟨zs, rfl, hrest⟩ | ⟨zs, hl, hrest⟩
      · cases zs with
        | nil =>
            obtain ⟨rfl, rfl⟩ := List.cons.inj hrest
            exact ⟨context, l, r, rfl, by simp, rfl⟩
        | cons z zs =>
            obtain ⟨rfl, hr⟩ := List.cons.inj hrest
            obtain ⟨context', l', r', hplug, hbefore, hafter⟩ := ihr hr (.right e' l context)
            exact ⟨context', l', r', hplug, by simpa [before] using hbefore, hafter⟩
      · cases zs with
        | nil =>
            obtain ⟨rfl, rfl⟩ := List.cons.inj hrest
            rw [List.append_nil] at hl
            exact ⟨context, l, r, rfl, by rw [inorder, hl], rfl⟩
        | cons z zs =>
            obtain ⟨rfl, rfl⟩ := List.cons.inj hrest
            obtain ⟨context', l', r', hplug, hbefore, hafter⟩ := ihl hl (.left e' r context)
            exact ⟨context', l', r', hplug, hbefore, by simpa [after] using hafter⟩

/-- Where the walk down leads that goes left at the nodes that `goesLeft`. -/
def place (goesLeft : β → Bool) : BinaryTree β → Context β → Context β
  | .nil, context => context
  | .node e l r, context =>
      if goesLeft e then place goesLeft l (.left e r context) else place goesLeft r (.right e l context)

theorem plug_place (goesLeft : β → Bool) (t : BinaryTree β) (context : Context β) :
    plug (place goesLeft t context) .nil = plug context t := by
  induction t generalizing context with
  | nil => rfl
  | node e l r ihl ihr =>
      unfold place
      split
      · exact ihl _
      · exact ihr _

/-- **The place** is behind the nodes at which the walk would not go left, and in front of the others. -/
theorem place_split {goesLeft : β → Bool} {t : BinaryTree β} {context : Context β}
    (h : (inorder t).Pairwise fun a b => goesLeft a = true → goesLeft b = true)
    (hbefore : ∀ b ∈ before context, goesLeft b = false) (hafter : ∀ b ∈ after context, goesLeft b = true) :
    (∀ b ∈ before (place goesLeft t context), goesLeft b = false) ∧
      ∀ b ∈ after (place goesLeft t context), goesLeft b = true := by
  induction t generalizing context with
  | nil => exact ⟨hbefore, hafter⟩
  | node e l r ihl ihr =>
      rw [inorder, keys_node, List.pairwise_append, List.pairwise_cons] at h
      obtain ⟨hl, ⟨her, hr⟩, hlr⟩ := h
      unfold place
      by_cases he : goesLeft e = true
      · rw [if_pos he]
        refine ihl hl hbefore fun b hb => ?_
        rcases List.mem_append.mp hb with hb | hb
        · rcases List.mem_cons.mp hb with rfl | hb
          · exact he
          · exact her b hb he
        · exact hafter b hb
      · rw [if_neg he]
        refine ihr hr (fun b hb => ?_) hafter
        rcases List.mem_append.mp hb with hb | hb
        · rcases List.mem_append.mp hb with hb | hb
          · exact hbefore b hb
          · exact Bool.eq_false_iff.mpr fun hleft => he (hlr b hb _ List.mem_cons_self hleft)
        · exact List.mem_singleton.mp hb ▸ Bool.eq_false_iff.mpr he

/-- `l` as the left son of the first node of the tree. -/
def hang (l : BinaryTree β) : BinaryTree β → BinaryTree β
  | .nil => l
  | .node e rl rr => .node e (hang l rl) rr

theorem inorder_hang (l r : BinaryTree β) : inorder (hang l r) = inorder l ++ inorder r := by
  induction r with
  | nil => simp [hang]
  | node e rl rr ih =>
      simp only [hang, inorder, keys_node] at ih ⊢
      rw [ih, List.append_assoc]

end Workbench.SearchTree
