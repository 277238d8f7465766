/-
  Trees whose children are reordered, and trees that are cut.

  1. `Rearranged keep root other`: the other tree is the first one with the children of any nodes in
     another order, and with nodes of which at least `keep` is the same.  At every depth the two
     have the same nodes, as far as `keep` tells them apart (`Rearranged.perm_preorder`).
  2. `prune k root` is the tree without the nodes below depth `k`.  Its pre-order is the part of the
     pre-order that lies within this limit (`preorder_prune`).
-/
import BranchProbe.Proofs.Tree.Limits
import Mathlib.Data.List.Forall2

namespace BranchProbe.TreeNode

theorem preorderAll_eq_flatMap (d : Nat) (ns : List TreeNode) :
    preorderAll d ns = ns.flatMap (preorderFrom d) := by
  induction ns with
  | nil => rw [preorderAll, List.flatMap_nil]
  | cons n rest ih => rw [preorderAll, List.flatMap_cons, ih]

/-! ## Reordered children -/

/-- The children of any nodes are in another order, and `keep` is the same of all nodes. -/
inductive Rearranged {α : Type} (keep : TreeNode → α) : TreeNode → TreeNode → Prop where
  | node {n n' : TreeNode} {reordered : List TreeNode} (hkeep : keep n = keep n')
      (horder : n.children.Perm reordered)
      (hchildren : List.Forall₂ (Rearranged keep) reordered n'.children) : Rearranged keep n n'

/-- All of a node but its children. -/
def content (n : TreeNode) : String × String × Option String := (n.id, n.text, n.condition)

/-- What is read of a node: its text and its condition. -/
def wording (n : TreeNode) : String × Option String := (n.text, n.condition)

namespace Rearranged

variable {α : Type} {keep : TreeNode → α}

mutual

/-- Rearranging a tree rearranges its pre-order and keeps the depths, so nothing that is gathered
    without regard to order can change.  The induction is on the rearranged tree. -/
theorem perm_preorderFrom (d : Nat) :
    ∀ (n' : TreeNode) {n : TreeNode}, Rearranged keep n n' →
      ((n.preorderFrom d).map fun v => (v.1, keep v.2)).Perm
        ((n'.preorderFrom d).map fun v => (v.1, keep v.2))
  | ⟨id, text, condition, children⟩, n, .node hkeep horder hchildren => by
    have hreordered := (horder.flatMap_right (preorderFrom (d + 1))).map
      fun v : Nat × TreeNode => (v.1, keep v.2)
    rw [← preorderAll_eq_flatMap, ← preorderAll_eq_flatMap] at hreordered
    rw [preorderFrom_eq, preorderFrom_eq, List.map_cons, List.map_cons, hkeep]
    exact (hreordered.trans (perm_preorderAll (d + 1) children hchildren)).cons _

theorem perm_preorderAll (d : Nat) :
    ∀ (ns' : List TreeNode) {ns : List TreeNode}, List.Forall₂ (Rearranged keep) ns ns' →
      ((preorderAll d ns).map fun v => (v.1, keep v.2)).Perm
        ((preorderAll d ns').map fun v => (v.1, keep v.2))
  | [], _, .nil => .refl _
  | n' :: rest', n :: rest, .cons hn hrest => by
    rw [preorderAll, preorderAll, List.map_append, List.map_append]
    exact (perm_preorderFrom d n' hn).append (perm_preorderAll d rest' hrest)

end

/-- The nodes at each depth are the same up to their order, as far as `keep` tells. -/
theorem perm_preorder {root other : TreeNode} (h : root.Rearranged keep other) :
    (root.preorder.map fun v => (v.1, keep v.2)).Perm
      (other.preorder.map fun v => (v.1, keep v.2)) :=
  perm_preorderFrom 0 other h

end Rearranged

/-! ## Trees that are cut -/

/-- The tree without the nodes more than `k` levels below its root. -/
def prune : (k : Nat) → TreeNode → TreeNode
  | 0, n => { n with children := [] }
  | k + 1, n => { n with children := n.children.map (prune k) }

/-- Cutting a tree changes no node that is left, its children apart. -/
theorem content_prune (k : Nat) (n : TreeNode) : (n.prune k).content = n.content := by
  cases k <;> rfl

/-- The pre-order of a tree that was cut is the part of the pre-order above the cut. -/
theorem preorderFrom_prune (k : Nat) :
    ∀ (d : Nat) (n : TreeNode), (((n.prune k).preorderFrom d).map fun v => (v.1, v.2.content))
      = ((n.preorderFrom d).filter fun v => v.1 ≤ d + k).map fun v => (v.1, v.2.content) := by
  induction k with
  | zero =>
    intro d n
    rw [preorderFrom_eq, preorderFrom_eq, List.filter_cons_of_pos (by simp),
      filter_preorderAll (by omega), List.map_cons, content_prune]
    simp [prune, preorderAll]
  | succ k ih =>
    intro d n
    rw [preorderFrom_eq, preorderFrom_eq, List.filter_cons_of_pos (by simp), List.map_cons,
      List.map_cons, content_prune, preorderAll_eq_flatMap, preorderAll_eq_flatMap]
    have hlimit : d + (k + 1) = d + 1 + k := by omega
    have hchildren : (n.prune (k + 1)).children = n.children.map (prune k) := rfl
    rw [hlimit, hchildren, List.flatMap_map, List.filter_flatMap, List.map_flatMap,
      List.map_flatMap]
    exact congrArg _ (List.flatMap_congr fun c _ => ih (d + 1) c)

/-- The nodes of the cut tree are those within the limit, with all they had but their children. -/
theorem preorder_prune (k : Nat) (n : TreeNode) :
    ((n.prune k).preorder.map fun v => (v.1, v.2.content))
      = (n.preorder.filter fun v => v.1 ≤ k).map fun v => (v.1, v.2.content) := by
  have h := preorderFrom_prune k 0 n
  rwa [Nat.zero_add] at h

/-- The cut tree has at most `k + 1` levels, so a walk with the limit `k` or more leaves nothing
    of it out. -/
theorem depth_prune_le (k : Nat) : ∀ n : TreeNode, (n.prune k).depth ≤ k + 1 := by
  induction k with
  | zero =>
    intro n
    rw [depth_eq]
    simp [prune, deepest]
  | succ k ih =>
    intro n
    have hchildren : deepest (n.children.map (prune k)) ≤ k + 1 := by
      rw [deepest_le_iff]
      intro c hc
      obtain ⟨n', -, rfl⟩ := List.mem_map.1 hc
      exact ih n'
    rw [depth_eq, prune]
    simp only
    omega

end BranchProbe.TreeNode
