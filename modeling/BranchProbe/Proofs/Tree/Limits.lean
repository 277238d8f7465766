/-
  Walks that do not go below a depth limit.

  1. A walk sees the part of the pre-order that lies within its limit (`walk_visited`), and sees
     all of the tree iff the tree has at most `limit + 1` levels (`walk_complete_iff`).
  2. The check of the ids goes the same way: it meets the ids of the nodes that a walk sees, in
     their order, and gives the same verdict on the depth (`checkFrom_eq`).

  All inductions are on the tree, for a node and for a list of nodes at once.  A node at the limit
  is the one place where the three recursions look different: they stop there for different
  reasons, and the levels below hold nothing within the limit.
-/
import BranchProbe.Proofs.Tree.Levels
import BranchProbe.Tree.Validation

namespace BranchProbe.TreeNode

/-! ## Depth -/

theorem depth_eq (n : TreeNode) : n.depth = 1 + deepest n.children := by
  cases n
  rw [depth]

/-- Where there are children there is at least one level below. -/
theorem deepest_pos {ns : List TreeNode} (h : ns ≠ []) : 0 < deepest ns := by
  obtain ⟨n, rest, rfl⟩ := List.exists_cons_of_ne_nil h
  have := depth_eq n
  rw [deepest]
  omega

/-- The levels below a node are bounded just if those of each child are. -/
theorem deepest_le_iff {ns : List TreeNode} {k : Nat} :
    deepest ns ≤ k ↔ ∀ n ∈ ns, n.depth ≤ k := by
  induction ns with
  | nil => simp [deepest]
  | cons n rest ih => rw [deepest, Nat.max_le, ih, List.forall_mem_cons]

theorem depth_lt_of_mem {n c : TreeNode} (h : c ∈ n.children) : c.depth < n.depth := by
  have hdeepest := deepest_le_iff.1 (Nat.le_refl (deepest n.children)) c h
  rw [depth_eq n]
  omega

/-- What lies below a node fits into the depth of the tree. -/
theorem At.depth_le {root n : TreeNode} {d : Nat} (h : root.At d n) : d + n.depth ≤ root.depth := by
  induction h with
  | root => exact Nat.le_of_eq (Nat.zero_add _)
  | child _ hn ih =>
    have hlt := depth_lt_of_mem hn
    omega

/-- A tree has a node on each of its levels.  The induction goes down into a deepest child, so
    the limit cuts something off just if the tree has more levels. -/
theorem exists_at_of_lt_depth {d : Nat} : ∀ {root : TreeNode}, d < root.depth → ∃ n, root.At d n := by
  induction d with
  | zero =>
    intro root _
    exact ⟨root, .root⟩
  | succ d ih =>
    intro root hd
    rw [depth_eq] at hd
    have hdeep : ¬ deepest root.children ≤ d := by omega
    simp only [deepest_le_iff, not_forall, Nat.not_le] at hdeep
    obtain ⟨c, hc, hlt⟩ := hdeep
    obtain ⟨n, hn⟩ := ih hlt
    exact ⟨n, hn.of_child hc⟩

/-! ## The walk -/

/-- One step of the walk.  A node without children is complete at any depth; one with children is
    complete only above the limit and if they are. -/
theorem walkFrom_eq (limit depth : Nat) (n : TreeNode) :
    n.walkFrom limit depth =
      if n.children.isEmpty then ⟨[(depth, n)], true⟩
      else if limit ≤ depth then ⟨[(depth, n)], false⟩
      else ⟨(depth, n) :: (walkAll limit (depth + 1) n.children).visited,
        (walkAll limit (depth + 1) n.children).complete⟩ := by
  cases n
  rw [walkFrom]

theorem filter_preorderAll {limit d : Nat} (h : limit < d) (ns : List TreeNode) :
    ((preorderAll d ns).filter fun v => v.1 ≤ limit) = [] := by
  rw [List.filter_eq_nil_iff]
  intro v hv
  have := le_of_mem_preorderAll hv
  simp only [decide_eq_true_eq]
  omega

mutual

/-- The walk visits the nodes within the limit, in pre-order.  The induction is on the tree:
    below the limit the recursion has stopped, and there the filter keeps nothing either. -/
theorem walkFrom_visited {limit d : Nat} (hd : d ≤ limit) :
    ∀ n : TreeNode,
      (n.walkFrom limit d).visited = (n.preorderFrom d).filter fun v => v.1 ≤ limit
  | ⟨id, text, condition, children⟩ => by
    rw [walkFrom_eq, preorderFrom_eq, List.filter_cons_of_pos (by simpa using hd)]
    split
    · next hempty =>
      rw [List.isEmpty_iff.1 hempty]
      simp [preorderAll]
    · split
      · rw [filter_preorderAll (by omega)]
      · next hlt => rw [← walkAll_visited (Nat.lt_of_not_le hlt) children]

theorem walkAll_visited {limit d : Nat} (hd : d ≤ limit) :
    ∀ ns : List TreeNode,
      (walkAll limit d ns).visited = (preorderAll d ns).filter fun v => v.1 ≤ limit
  | [] => by simp [walkAll, preorderAll]
  | n :: rest => by
    rw [walkAll, preorderAll, List.filter_append, ← walkFrom_visited hd n,
      ← walkAll_visited hd rest]

end

mutual

/-- The walk is complete just if the levels of the tree end at the limit. -/
theorem walkFrom_complete {limit d : Nat} (hd : d ≤ limit) :
    ∀ n : TreeNode, (n.walkFrom limit d).complete = true ↔ d + n.depth ≤ limit + 1
  | ⟨id, text, condition, children⟩ => by
    rw [walkFrom_eq, depth_eq]
    dsimp only
    split
    · next hempty =>
      rw [List.isEmpty_iff.1 hempty, deepest]
      simp only [true_iff]
      omega
    · next hne =>
      have hpos := deepest_pos fun h => hne (List.isEmpty_iff.2 h)
      split
      · simp only [Bool.false_eq_true, false_iff]
        omega
      · next hlt =>
        rw [walkAll_complete (Nat.lt_of_not_le hlt) children]
        omega

theorem walkAll_complete {limit d : Nat} (hd : d ≤ limit) :
    ∀ ns : List TreeNode, (walkAll limit d ns).complete = true ↔ d + deepest ns ≤ limit + 1
  | [] => by
    simp only [walkAll, deepest, true_iff]
    omega
  | n :: rest => by
    rw [walkAll, deepest]
    simp only [Bool.and_eq_true, walkFrom_complete hd n, walkAll_complete hd rest]
    omega

end

/-- A walk sees the part of the pre-order within its limit. -/
theorem walk_visited (limit : Nat) (n : TreeNode) :
    (n.walk limit).visited = n.preorder.filter fun v => v.1 ≤ limit :=
  walkFrom_visited (Nat.zero_le limit) n

/-- A walk leaves nothing out iff the tree has at most `limit + 1` levels. -/
theorem walk_complete_iff (limit : Nat) (n : TreeNode) :
    (n.walk limit).complete = true ↔ n.depth ≤ limit + 1 := by
  rw [walk, walkFrom_complete (Nat.zero_le limit), Nat.zero_add]

/-- A walk of a tree with at most `limit + 1` levels sees all of its nodes. -/
theorem walk_eq_of_depth_le {limit : Nat} {n : TreeNode} (h : n.depth ≤ limit + 1) :
    n.walk limit = ⟨n.preorder, true⟩ := by
  have hvisited : (n.walk limit).visited = n.preorder := by
    rw [walk_visited, List.filter_eq_self]
    intro v hv
    have hdepth := (mem_preorder_iff.1 hv).depth_le
    have hpos := depth_eq v.2
    simp only [decide_eq_true_eq]
    omega
  rw [← hvisited, ← (walk_complete_iff limit n).2 h]

/-- All nodes of a tree with at most `limit + 1` levels lie within the limit. -/
theorem filter_preorder_of_depth_le {limit : Nat} {n : TreeNode} (h : n.depth ≤ limit + 1) :
    (n.preorder.filter fun v => v.1 ≤ limit) = n.preorder := by
  rw [← walk_visited, walk_eq_of_depth_le h]

/-! ## The check of the ids -/

/-- One step of the check of the ids, which goes the same way as the walk. -/
theorem checkFrom_unfold (limit depth : Nat) (n : TreeNode) (check : IdCheck) :
    n.checkFrom limit depth check =
      if n.children.isEmpty then (check.meet n.id, true)
      else if limit ≤ depth then (check.meet n.id, false)
      else checkAll limit (depth + 1) n.children (check.meet n.id) := by
  cases n
  rw [checkFrom]

/-- The check after the ids of some nodes. -/
def meetAll (check : IdCheck) (visited : List (Nat × TreeNode)) : IdCheck :=
  (visited.map fun v => v.2.id).foldl IdCheck.meet check

mutual

/-- The check meets the ids that a walk sees, and its verdict on the depth is that of the walk. -/
theorem checkFrom_eq (limit d : Nat) :
    ∀ (n : TreeNode) (check : IdCheck), n.checkFrom limit d check
      = (meetAll check (n.walkFrom limit d).visited, (n.walkFrom limit d).complete)
  | ⟨id, text, condition, children⟩, check => by
    rw [checkFrom_unfold, walkFrom_eq]
    split
    · rfl
    · split
      · rfl
      · exact checkAll_eq limit (d + 1) children _

/-- The check of some nodes meets the ids that the walk visits, in the same order, and is
    complete just if the walk is. -/
theorem checkAll_eq (limit d : Nat) :
    ∀ (ns : List TreeNode) (check : IdCheck), checkAll limit d ns check
      = (meetAll check (walkAll limit d ns).visited, (walkAll limit d ns).complete)
  | [], check => by simp [checkAll, walkAll, meetAll]
  | n :: rest, check => by
    rw [checkAll, walkAll, checkFrom_eq limit d n]
    simp only
    rw [checkAll_eq limit d rest]
    simp [meetAll]

end

end BranchProbe.TreeNode
