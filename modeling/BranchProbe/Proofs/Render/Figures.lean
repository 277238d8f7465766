/-
  The figures of a drawn tree, and the layout that they decide.

  1. `TreeMetrics.round` is one round of the loop that gathers the figures.  Every round takes one
     node off those that are left, so the stack is empty after as many rounds as there are nodes, and
     not before (`iterate_round`, `stack_ne_nil`).
  2. The loop sees the children of a node from the last one to the first, and so not in pre-order.
     The crux is that the figures do not depend on the order (`RightCommutative note`): they are those
     of the pre-order (`ofNode_eq`), and of any other order of the same nodes.
  3. A drawn tree has the nodes within the limit.  So its figures are read off the tree itself, and
     two trees with the same texts and conditions on each level have one layout.
-/
import BranchProbe.Proofs.Render.Builder
import BranchProbe.Proofs.Tree.Reshaped
import BranchProbe.Render.Model
import Mathlib.Data.List.Perm.Basic
import Mathlib.Logic.Function.Iterate

namespace BranchProbe

/-- A drawn node comes first, then its children one level further down, as for the nodes of the
    tree.  With this the loop is compared with the pre-order. -/
theorem RenderNode.preorderFrom_eq (d : Nat) (n : RenderNode) :
    n.preorderFrom d = (d, n) :: preorderAll (d + 1) n.children := by
  cases n
  rw [preorderFrom]

theorem RenderNode.preorderAll_eq_flatMap (d : Nat) (ns : List RenderNode) :
    preorderAll d ns = ns.flatMap (preorderFrom d) := by
  induction ns with
  | nil => rw [preorderAll, List.flatMap_nil]
  | cons n rest ih => rw [preorderAll, List.flatMap_cons, ih]

namespace TreeMetrics

/-! ## The loop -/

/-- The figures so far, and the nodes still to be seen. -/
abbrev LoopState := TreeMetrics × List (Nat × RenderNode)

/-- One round: the node on top of the stack is seen, and its children take its place. -/
def round : LoopState → LoopState
  | (m, []) => (m, [])
  | (m, (depth, n) :: rest) => (m.see depth n, stacked depth n ++ rest)

/-- A round leaves one node less, since a node is taken off the stack and its children, which
    were counted with it, are put on. -/
theorem remaining_round (s : LoopState) : remaining (round s).2 = remaining s.2 - 1 := by
  match s with
  | (m, []) => rfl
  | (m, (depth, n) :: rest) =>
    have hstep := remaining_stacked depth n rest
    show remaining (stacked depth n ++ rest) = remaining ((depth, n) :: rest) - 1
    omega

/-- Each round takes one node off what remains, and at the end nothing is left to take.  So the
    number of rounds is known before the loop has run. -/
theorem remaining_iterate (k : Nat) (s : LoopState) :
    remaining (round^[k] s).2 = remaining s.2 - k := by
  induction k with
  | zero => rfl
  | succ k ih =>
    rw [Function.iterate_succ_apply', remaining_round, ih]
    omega

/-- The loop is over after as many rounds as there are nodes, with the figures gathered. -/
theorem iterate_round (m : TreeMetrics) (stack : List (Nat × RenderNode)) :
    round^[remaining stack] (m, stack) = (m.gather stack, []) := by
  fun_induction gather m stack with
  | case1 m => rfl
  | case2 m depth n rest ih =>
    rw [← remaining_stacked, Function.iterate_succ_apply]
    exact ih

/-- Before as many rounds as there are nodes some are left on the stack, so the loop is not over
    early. -/
theorem stack_ne_nil {k : Nat} {s : LoopState} (h : k < remaining s.2) : (round^[k] s).2 ≠ [] := by
  intro hnil
  have hleft := remaining_iterate k s
  rw [hnil] at hleft
  have hnone : remaining [] = 0 := rfl
  omega

/-- Every node on the stack and below is counted.  The induction is the one of the loop: each
    round notes one node and leaves one less. -/
theorem nodes_gather (m : TreeMetrics) (stack : List (Nat × RenderNode)) :
    (m.gather stack).nodes = m.nodes + remaining stack := by
  fun_induction gather m stack with
  | case1 m => rfl
  | case2 m depth n rest ih =>
    have hstep := remaining_stacked depth n rest
    have hseen : (m.see depth n).nodes = m.nodes + 1 := rfl
    omega

/-! ## The order of the nodes -/

/-- The figures with one more node, of which the depth and the weight are known. -/
def note (m : TreeMetrics) (v : Nat × Nat) : TreeMetrics :=
  ⟨max m.weight v.2, max m.depth v.1, m.nodes + 1⟩

instance : RightCommutative note where
  right_comm m v w := by
    simp only [note, Nat.max_right_comm]

/-- Depths and weights of drawn nodes. -/
def sizes (nodes : List (Nat × RenderNode)) : List (Nat × Nat) := nodes.map fun v => (v.1, v.2.weight)

/-- The loop gathers the figures of the pre-orders of the nodes on the stack. -/
theorem gather_eq_foldl (m : TreeMetrics) (stack : List (Nat × RenderNode)) :
    m.gather stack = (sizes (stack.flatMap fun s => s.2.preorderFrom s.1)).foldl note m := by
  fun_induction gather m stack with
  | case1 m => rfl
  | case2 m depth n rest ih =>
    have hstacked : ((stacked depth n).flatMap fun s => s.2.preorderFrom s.1).Perm
        (RenderNode.preorderAll (depth + 1) n.children) := by
      rw [stacked, List.flatMap_map, RenderNode.preorderAll_eq_flatMap]
      exact n.children.reverse_perm.flatMap_right _
    have hsizes : (sizes ((stacked depth n ++ rest).flatMap fun s => s.2.preorderFrom s.1)).Perm
        (sizes (RenderNode.preorderAll (depth + 1) n.children
          ++ rest.flatMap fun s => s.2.preorderFrom s.1)) := by
      rw [List.flatMap_append]
      exact (hstacked.append_right _).map _
    rw [ih, hsizes.foldl_eq, List.flatMap_cons, RenderNode.preorderFrom_eq]
    rfl

/-- The figures of a tree are those of its pre-order, although the loop takes the nodes in
    another order: a greatest value and a sum do not depend on it. -/
theorem ofNode_eq (root : RenderNode) : ofNode root = (sizes root.preorder).foldl note zero := by
  rw [ofNode, gather_eq_foldl, List.flatMap_singleton]
  rfl

/-- Noting some nodes one after the other keeps the greatest weight and depth and adds up their
    number; in which order they are noted does not matter. -/
theorem foldl_note (m : TreeMetrics) (l : List (Nat × Nat)) :
    l.foldl note m = ⟨(l.map (·.2)).foldl max m.weight, (l.map (·.1)).foldl max m.depth,
      m.nodes + l.length⟩ := by
  induction l generalizing m with
  | nil => rfl
  | cons v rest ih =>
    rw [List.foldl_cons, ih]
    simp only [note, List.map_cons, List.foldl_cons, List.length_cons]
    congr 1
    omega

end TreeMetrics

theorem max?_eq_foldl {l : List Nat} (h : l ≠ []) : l.max? = some (l.foldl max 0) := by
  cases l with
  | nil => exact absurd rfl h
  | cons x rest => rw [List.max?_cons', List.foldl_cons, Nat.zero_max]

/-! ## The figures of a tree within a limit -/

namespace TreeNode

open TreeMetrics (sizes ofNode)

/-- Depths and weights of what is drawn are those of the nodes within the limit. -/
theorem sizes_render (rules : BuildRules) (root : TreeNode) :
    sizes (root.render rules).root.preorder
      = (root.preorder.filter fun v => v.1 ≤ rules.limit).map fun v =>
          (v.1, contentWeight v.2.text v.2.condition) := by
  have hshows := forall₂_shows rules root
  rw [walk_visited] at hshows
  rw [sizes, ← List.forall₂_eq_eq_eq, List.forall₂_map_left_iff, List.forall₂_map_right_iff]
  exact hshows.flip.imp fun r v hv => Prod.ext hv.1.symm hv.2.weight

/-- The deepest nodes within the limit are at the limit, or on the last level of the tree. -/
theorem max?_depths (root : TreeNode) (limit : Nat) :
    ((root.preorder.filter fun v => v.1 ≤ limit).map (·.1)).max?
      = some (min limit (root.depth - 1)) := by
  have hpos := depth_eq root
  rw [List.max?_eq_some_iff]
  constructor
  · obtain ⟨n, hn⟩ : ∃ n, root.At (min limit (root.depth - 1)) n :=
      exists_at_of_lt_depth (by omega)
    refine List.mem_map.2 ⟨(_, n), List.mem_filter.2 ⟨mem_preorder_iff.2 hn, ?_⟩, rfl⟩
    exact decide_eq_true (Nat.min_le_left _ _)
  · intro d hd
    obtain ⟨v, hv, rfl⟩ := List.mem_map.1 hd
    obtain ⟨hmem, hle⟩ := List.mem_filter.1 hv
    have hlevel := (mem_preorder_iff.1 hmem).depth_le
    have hone := depth_eq v.2
    simp only [decide_eq_true_eq] at hle
    omega

/-- The figures of what is drawn: the greatest weight of the nodes within the limit, the depth of the
    deepest one, and their number. -/
theorem ofNode_render (rules : BuildRules) (root : TreeNode) :
    (ofNode (root.render rules).root).nodes = (root.within rules.limit).length
    ∧ (ofNode (root.render rules).root).depth = min rules.limit (root.depth - 1)
    ∧ ((root.within rules.limit).map fun n => contentWeight n.text n.condition).max?
      = some (ofNode (root.render rules).root).weight := by
  have hdepths := root.max?_depths rules.limit
  have hne : (root.preorder.filter fun v => v.1 ≤ rules.limit) ≠ [] := by
    intro hnil
    rw [hnil] at hdepths
    cases hdepths
  rw [max?_eq_foldl (by simpa using hne)] at hdepths
  rw [TreeMetrics.ofNode_eq, sizes_render, TreeMetrics.foldl_note]
  simp only [TreeMetrics.zero, List.map_map, List.length_map, Nat.zero_add, within]
  refine ⟨trivial, Option.some.inj hdepths, ?_⟩
  exact max?_eq_foldl (by simpa using hne)

/-- With the same texts and conditions on each level there are the same figures. -/
theorem Rearranged.ofNode_render_eq {root other : TreeNode} (h : root.Rearranged wording other)
    (path path' : List String) (limit : Nat) :
    ofNode (root.render ⟨path, limit⟩).root = ofNode (other.render ⟨path', limit⟩).root := by
  have hread : ∀ (t : TreeNode) (active : List String),
      sizes (t.render ⟨active, limit⟩).root.preorder
        = ((t.preorder.map fun v => (v.1, v.2.wording)).filter fun w => w.1 ≤ limit).map
            fun w => (w.1, contentWeight w.2.1 w.2.2) := by
    intro t active
    rw [sizes_render, List.filter_map, List.map_map]
    rfl
  rw [TreeMetrics.ofNode_eq, TreeMetrics.ofNode_eq, hread, hread]
  exact ((h.perm_preorder.filter _).map _).foldl_eq _

end TreeNode

/-- The trees differ at most in the order of siblings, in ids and in samples: both have no root, or
    the one root is the other rearranged, with the same texts and conditions. -/
def DecisionTree.SameWording (t t' : DecisionTree) : Prop :=
  Option.Rel (TreeNode.Rearranged TreeNode.wording) t.root t'.root

/-- The layout of a tree, for any path and limit, is decided by the figures that are collected from
    the model.  The loop that gathers them from what is drawn is over after as many rounds as there
    are nodes within the limit, and not before.  The figures are the number of these nodes, the
    depth of the deepest one, which is cut off by the limit or the last level of the tree, and the
    greatest length of a text or condition.  So the layout is the same for every path, and for every
    tree that differs in the order of siblings, in ids and in samples only. -/
theorem layout_of_figures (t : DecisionTree) (path : List String) (limit : Nat) :
    (∀ root, t.root = some root → ∃ model figures,
      (t.renderModel path limit).value = some model
      ∧ model.layout = .ofMetrics figures
      ∧ TreeMetrics.ofNode model.root = figures
      ∧ TreeMetrics.round^[(root.within limit).length] (.zero, [(0, model.root)]) = (figures, [])
      ∧ (∀ k < (root.within limit).length,
        (TreeMetrics.round^[k] (.zero, [(0, model.root)])).2 ≠ [])
      ∧ figures.nodes = (root.within limit).length
      ∧ figures.depth = min limit (root.depth - 1)
      ∧ ((root.within limit).map fun n => max n.text.length (n.condition.getD "").length).max?
        = some figures.weight)
    ∧ ∀ (t' : DecisionTree) (path' : List String), t.SameWording t' →
      (t.renderModel path limit).value.map RenderModel.layout
        = (t'.renderModel path' limit).value.map RenderModel.layout := by
  constructor
  · intro root hroot
    let drawn := (root.renderModel path limit).value.root
    obtain ⟨hnodes, hdepth, hweight⟩ := TreeNode.ofNode_render ⟨path, limit⟩ root
    have hrounds : TreeMetrics.remaining [(0, drawn)] = (root.within limit).length := by
      have hcounted : (TreeMetrics.ofNode drawn).nodes = 0 + TreeMetrics.remaining [(0, drawn)] :=
        TreeMetrics.nodes_gather .zero [(0, drawn)]
      have hwithin : (TreeMetrics.ofNode drawn).nodes = (root.within limit).length := hnodes
      omega
    refine ⟨_, .ofNode drawn, DecisionTree.renderModel_eq_some path limit hroot, rfl, rfl, ?_, ?_,
      hnodes, hdepth, hweight⟩
    · rw [← hrounds]
      exact TreeMetrics.iterate_round .zero [(0, drawn)]
    · intro k hk
      rw [← hrounds] at hk
      exact TreeMetrics.stack_ne_nil hk
  · intro t' path' h
    obtain ⟨root, samples⟩ := t
    obtain ⟨root', samples'⟩ := t'
    cases h with
    | none => rfl
    | some h =>
      have hfigures := h.ofNode_render_eq path path' limit
      exact congrArg (fun figures => some (Layout.ofMetrics figures)) hfigures

namespace DecisionTree

/-- Three levels, with the longest text on the second. -/
def longestOnSecondLevel : DecisionTree :=
  ⟨some ⟨"a", "Start", none, [⟨"b", "Größe", some "input.x > 1", [⟨"d", "", none, []⟩]⟩,
    ⟨"c", "Minor", none, []⟩]⟩, []⟩

/-- The same with other ids, the children of the root in the other order, and a sample. -/
def longestReordered : DecisionTree :=
  ⟨some ⟨"p", "Start", none, [⟨"q", "Minor", none, []⟩,
    ⟨"q", "Größe", some "input.x > 1", [⟨"a", "", none, []⟩]⟩]⟩, [⟨none, .empty⟩]⟩

/-- Down to depth one there are three nodes, and both trees have the one layout. -/
theorem longestOnSecondLevel_layout :
    longestOnSecondLevel.SameWording longestReordered
    ∧ (∃ model, (longestOnSecondLevel.renderModel ["a", "b"] 1).value = some model
      ∧ model.layout = .ofMetrics ⟨11, 1, 3⟩
      ∧ TreeMetrics.ofNode model.root = ⟨11, 1, 3⟩
      ∧ (TreeMetrics.round^[2] (.zero, [(0, model.root)])).2 ≠ [])
    ∧ (longestOnSecondLevel.renderModel ["a", "b"] 1).value.map RenderModel.layout
      = (longestReordered.renderModel [] 1).value.map RenderModel.layout := by
  have hsame : longestOnSecondLevel.SameWording longestReordered :=
    .some (.node rfl (.swap _ _ _) (.cons (.node rfl (.refl _) .nil)
      (.cons (.node rfl (.refl _) (.cons (.node rfl (.refl _) .nil) .nil)) .nil)))
  obtain ⟨hdrawn, hlayout⟩ := layout_of_figures longestOnSecondLevel ["a", "b"] 1
  obtain ⟨model, ⟨weight, depth, nodes⟩, hmodel, hlaid, hfigures, -, hrounds, hnodes, hdepth,
    hweight⟩ := hdrawn _ rfl
  obtain rfl : nodes = 3 := hnodes
  obtain rfl : depth = 1 := hdepth
  obtain rfl : 11 = weight := Option.some.inj hweight
  exact ⟨hsame, ⟨model, hmodel, hlaid, hfigures, hrounds 2 (by decide)⟩,
    hlayout longestReordered [] hsame⟩

end DecisionTree

end BranchProbe
