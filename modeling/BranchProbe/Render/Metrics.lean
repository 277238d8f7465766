/-
  The figures of a drawn tree.

  `TreeMetrics.gather` keeps a stack of the nodes still to be seen, each with its depth.  It takes
  the node on top and puts the children in its place, the last one on top.  The nodes below those
  on the stack get fewer at every step.
-/
import BranchProbe.Render.Node
import BranchProbe.Layout

namespace BranchProbe

namespace RenderNode

theorem countAll_append (l l' : List RenderNode) :
    countAll (l ++ l') = countAll l + countAll l' := by
  induction l with
  | nil => rw [List.nil_append, countAll, Nat.zero_add]
  | cons n rest ih => rw [List.cons_append, countAll, countAll, ih, Nat.add_assoc]

theorem countAll_reverse (l : List RenderNode) : countAll l.reverse = countAll l := by
  induction l with
  | nil => rfl
  | cons n rest ih =>
    rw [List.reverse_cons, countAll_append, ih, countAll, countAll, countAll, Nat.add_zero,
      Nat.add_comm]

theorem count_eq (n : RenderNode) : n.count = 1 + countAll n.children := by
  cases n
  rfl

end RenderNode

namespace TreeMetrics

/-- The figures of no tree. -/
def zero : TreeMetrics := ⟨0, 0, 0⟩

/-- The figures with one more node. -/
def see (m : TreeMetrics) (depth : Nat) (n : RenderNode) : TreeMetrics :=
  ⟨max m.weight n.weight, max m.depth depth, m.nodes + 1⟩

/-- The children of a node as they are put on the stack. -/
def stacked (depth : Nat) (n : RenderNode) : List (Nat × RenderNode) :=
  n.children.reverse.map fun child => (depth + 1, child)

/-- The number of nodes at and below those on a stack. -/
def remaining (stack : List (Nat × RenderNode)) : Nat := RenderNode.countAll (stack.map (·.2))

/-- Taking a node off the stack and putting its children on it leaves one node less to be
    visited.  This is why the loop comes to an end. -/
theorem remaining_stacked (depth : Nat) (n : RenderNode) (rest : List (Nat × RenderNode)) :
    remaining (stacked depth n ++ rest) + 1 = remaining ((depth, n) :: rest) := by
  have hstacked : (stacked depth n).map (·.2) = n.children.reverse := by
    rw [stacked, List.map_map]
    exact List.map_id _
  rw [remaining, remaining, List.map_append, hstacked, RenderNode.countAll_append,
    RenderNode.countAll_reverse, List.map_cons, RenderNode.countAll, RenderNode.count_eq n]
  omega

/-- Sees all nodes on a stack and below. -/
def gather (m : TreeMetrics) : (stack : List (Nat × RenderNode)) → TreeMetrics
  | [] => m
  | (depth, n) :: rest => gather (m.see depth n) (stacked depth n ++ rest)
  termination_by stack => remaining stack
  decreasing_by
    have := remaining_stacked depth n rest
    omega

/-- The figures of a tree. -/
def ofNode (root : RenderNode) : TreeMetrics := zero.gather [(0, root)]

end TreeMetrics

/-- The layout for a tree. -/
def Layout.ofNode (root : RenderNode) : Layout := .ofMetrics (.ofNode root)

end BranchProbe
