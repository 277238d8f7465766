/-
  All walks that keep to a depth limit agree.

  The walk, the check of the ids, the builder of the drawn tree and the derivation of defaults go
  down a tree on their own, and the depth of the tree is counted by a fifth recursion.  They see
  the same nodes, and each tells of a cut exactly when the tree has more levels than the limit
  allows.
-/
import BranchProbe.Proofs.Render.Builder
import BranchProbe.Defaults
import Mathlib.Tactic.TFAE

namespace BranchProbe.TreeNode

mutual

/-- Nothing is cut off just if the levels of the tree end at the limit, which is when the walk is
    complete.  The induction is on the tree. -/
theorem cutAt_preorderFrom {limit d : Nat} (hd : d ≤ limit) :
    ∀ n : TreeNode, cutAt limit (n.preorderFrom d) = [] ↔ d + n.depth ≤ limit + 1
  | ⟨id, text, condition, children⟩ => by
    rw [preorderFrom_eq, depth_eq]
    dsimp only
    rcases Nat.lt_or_eq_of_le hd with hlt | rfl
    · have ih := cutAt_preorderAll (Nat.succ_le_of_lt hlt) children
      rw [cutAt] at ih ⊢
      rw [List.filter_cons_of_neg (by simp [Nat.ne_of_lt hlt]), ih]
      omega
    · cases children with
      | nil => simp [cutAt, preorderAll, deepest]
      | cons c rest =>
        have hpos := deepest_pos (List.cons_ne_nil c rest)
        rw [cutAt, List.filter_cons_of_pos (by simp)]
        simp only [reduceCtorEq, false_iff]
        omega

theorem cutAt_preorderAll {limit d : Nat} (hd : d ≤ limit) :
    ∀ ns : List TreeNode, cutAt limit (preorderAll d ns) = [] ↔ d + deepest ns ≤ limit + 1
  | [] => by
    simp only [preorderAll, cutAt, List.filter_nil, deepest, true_iff]
    omega
  | n :: rest => by
    have hn := cutAt_preorderFrom hd n
    have hrest := cutAt_preorderAll hd rest
    rw [cutAt] at hn hrest ⊢
    rw [preorderAll, List.filter_append, List.append_eq_nil_iff, hn, hrest, deepest]
    omega

end

/-- The builder warns of nothing iff the tree has at most `limit + 1` levels. -/
theorem render_warnings_eq_nil_iff (rules : BuildRules) (n : TreeNode) :
    (n.render rules).warnings = [] ↔ n.depth ≤ rules.limit + 1 := by
  rw [render_eq, List.map_eq_nil_iff, preorder, cutAt_preorderFrom (Nat.zero_le _), Nat.zero_add]

/-- The defaults come without a warning iff the walk for them leaves nothing out. -/
theorem defaults_warnings_eq_nil_iff (limit : Nat) (n : TreeNode) :
    (n.defaults limit).warnings = [] ↔ (n.walk limit).complete = true := by
  rw [defaults]
  split <;> simp_all

/-- The walks of a tree with a depth limit agree on the nodes within it, on their order and
    nesting, and on whether there are others.  In a pre-order the depths tell the nesting. -/
theorem limited_walks_agree (n : TreeNode) (limit : Nat) (active : List String) :
    (n.walk limit).visited = (n.preorder.filter fun v => v.1 ≤ limit)
    ∧ List.Forall₂ (fun v r => v.1 = r.1 ∧ RenderNode.Shows active v.2 r.2)
        (n.preorder.filter fun v => v.1 ≤ limit) (n.render ⟨active, limit⟩).root.preorder
    ∧ [(n.walk limit).complete = true,
        (n.checkFrom limit 0 .start).2 = true,
        (n.render ⟨active, limit⟩).warnings = [],
        (n.defaults limit).warnings = [],
        n.depth ≤ limit + 1].TFAE
    ∧ (n.render ⟨active, limit⟩).warnings
        = ((n.preorder.filter fun v => v.1 = limit ∧ v.2.children ≠ []).map fun v =>
            "node " ++ v.2.id ++ " at depth " ++ toString limit ++ " exceeds the depth limit, "
              ++ toString v.2.children.length ++ " children dropped") := by
  have hvisited := walk_visited limit n
  refine ⟨hvisited, ?_, ?_, ?_⟩
  · rw [← hvisited]
    exact forall₂_shows ⟨active, limit⟩ n
  · tfae_have 1 ↔ 5 := walk_complete_iff limit n
    tfae_have 2 ↔ 1 := by rw [checkFrom_eq, walk]
    tfae_have 3 ↔ 5 := render_warnings_eq_nil_iff ⟨active, limit⟩ n
    tfae_have 4 ↔ 1 := defaults_warnings_eq_nil_iff limit n
    tfae_finish
  · rw [render_eq]
    apply List.map_congr_left
    intro v hv
    have hdepth : v.1 = limit := by
      have := (List.mem_filter.1 hv).2
      simp only [decide_eq_true_eq] at this
      exact this.1
    rw [cutWarning, hdepth]

end BranchProbe.TreeNode
