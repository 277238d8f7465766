/-
  The levels of a tree and its edges.

  1. `TreeNode.At root d n`: the node `n` lies at depth `d`, reached from the root by steps to a
     child.  `preorder` lists these nodes and no others (`mem_preorder_iff`), `within` those of them
     that lie no deeper than a limit.
  2. `Edge` is a step from a parent to a child.  `edges` lists the edges in pre-order of the child;
     with the root in front the children are the pre-order itself (`preorder_eq_cons_edges`).
  3. `DistinctIds`: no id occurs twice.  Then a node is known by its id, depth included, and no two
     nodes are each the parent of the other.
-/
import BranchProbe.Tree.Walk
import Mathlib.Data.List.Nodup

namespace BranchProbe.TreeNode

/-- A node of a tree, with its depth. -/
inductive At (root : TreeNode) : (depth : Nat) → TreeNode → Prop where
  | root : At root 0 root
  | child {depth : Nat} {parent n : TreeNode} (hparent : At root depth parent)
      (hn : n ∈ parent.children) : At root (depth + 1) n

/-- What lies below a child lies one level deeper below its parent. -/
theorem At.of_child {root c n : TreeNode} {depth : Nat} (h : c.At depth n)
    (hc : c ∈ root.children) : root.At (depth + 1) n := by
  induction h with
  | root => exact .child .root hc
  | child _ hn ih => exact .child ih hn

/-! ## Pre-order -/

/-- A node comes first, then its children one level further down. -/
theorem preorderFrom_eq (depth : Nat) (n : TreeNode) :
    n.preorderFrom depth = (depth, n) :: preorderAll (depth + 1) n.children := by
  cases n
  rw [preorderFrom]

/-- A node is listed for several trees just if it is listed for one of them. -/
theorem mem_preorderAll {depth : Nat} {v : Nat × TreeNode} {ns : List TreeNode} :
    v ∈ preorderAll depth ns ↔ ∃ n ∈ ns, v ∈ n.preorderFrom depth := by
  induction ns with
  | nil => simp [preorderAll]
  | cons n rest ih => simp [preorderAll, ih]

mutual

/-- What is listed with a depth stands at this depth below the node where the list starts.  The
    induction is on the tree, with its list of children in the next lemma. -/
theorem at_of_mem_preorderFrom {d k : Nat} {n : TreeNode} :
    ∀ r : TreeNode, (k, n) ∈ r.preorderFrom d → ∃ j, k = d + j ∧ r.At j n
  | ⟨id, text, condition, children⟩, h => by
    rw [preorderFrom_eq] at h
    rcases List.mem_cons.1 h with heq | h
    · obtain ⟨rfl, rfl⟩ := Prod.mk.inj heq
      exact ⟨0, rfl, .root⟩
    · obtain ⟨c, hc, j, rfl, hat⟩ := at_of_mem_preorderAll children h
      exact ⟨j + 1, by omega, hat.of_child hc⟩

theorem at_of_mem_preorderAll {d k : Nat} {n : TreeNode} :
    ∀ rs : List TreeNode, (k, n) ∈ preorderAll d rs → ∃ c ∈ rs, ∃ j, k = d + j ∧ c.At j n
  | [], h => by simp [preorderAll] at h
  | c :: rest, h => by
    rw [preorderAll] at h
    rcases List.mem_append.1 h with h | h
    · obtain ⟨j, hj, hat⟩ := at_of_mem_preorderFrom c h
      exact ⟨c, List.mem_cons_self, j, hj, hat⟩
    · obtain ⟨c', hc', j, hj, hat⟩ := at_of_mem_preorderAll rest h
      exact ⟨c', List.mem_cons_of_mem _ hc', j, hj, hat⟩

end

mutual

/-- The children of a node that is listed are listed too, one level further down, wherever in the
    tree the node stands. -/
theorem child_mem_preorderFrom {d k : Nat} {parent n : TreeNode} (hn : n ∈ parent.children) :
    ∀ r : TreeNode, (k, parent) ∈ r.preorderFrom d → (k + 1, n) ∈ r.preorderFrom d
  | ⟨id, text, condition, children⟩, h => by
    rw [preorderFrom_eq] at h ⊢
    refine List.mem_cons_of_mem _ ?_
    rcases List.mem_cons.1 h with heq | h
    · obtain ⟨rfl, rfl⟩ := Prod.mk.inj heq
      exact mem_preorderAll.2 ⟨n, hn, by rw [preorderFrom_eq]; exact List.mem_cons_self⟩
    · exact child_mem_preorderAll hn children h

theorem child_mem_preorderAll {d k : Nat} {parent n : TreeNode} (hn : n ∈ parent.children) :
    ∀ rs : List TreeNode, (k, parent) ∈ preorderAll d rs → (k + 1, n) ∈ preorderAll d rs
  | [], h => by simp [preorderAll] at h
  | c :: rest, h => by
    rw [preorderAll] at h ⊢
    rcases List.mem_append.1 h with h | h
    · exact List.mem_append_left _ (child_mem_preorderFrom hn c h)
    · exact List.mem_append_right _ (child_mem_preorderAll hn rest h)

end

/-- The pre-order lists the nodes of a tree, each at its depth.  The list is what the program
    walks; `At` says which nodes there are without it. -/
theorem mem_preorder_iff {root n : TreeNode} {depth : Nat} :
    (depth, n) ∈ root.preorder ↔ root.At depth n := by
  constructor
  · intro h
    obtain ⟨j, rfl, hat⟩ := at_of_mem_preorderFrom root h
    rwa [Nat.zero_add]
  · intro h
    induction h with
    | root => rw [preorder, preorderFrom_eq]; exact List.mem_cons_self
    | child _ hn ih => exact child_mem_preorderFrom hn root ih

/-- The nodes at depth `limit` or above, in pre-order. -/
def within (root : TreeNode) (limit : Nat) : List TreeNode :=
  (root.preorder.filter fun v => v.1 ≤ limit).map (·.2)

theorem le_of_mem_preorderFrom {d : Nat} {r : TreeNode} {v : Nat × TreeNode}
    (h : v ∈ r.preorderFrom d) : d ≤ v.1 := by
  obtain ⟨j, hj, -⟩ := at_of_mem_preorderFrom r (k := v.1) (n := v.2) h
  omega

/-- Nothing below some nodes is listed with less than their depth. -/
theorem le_of_mem_preorderAll {d : Nat} {rs : List TreeNode} {v : Nat × TreeNode}
    (h : v ∈ preorderAll d rs) : d ≤ v.1 := by
  obtain ⟨r, -, hr⟩ := mem_preorderAll.1 h
  exact le_of_mem_preorderFrom hr

/-! ## Edges -/

/-- A step from a parent to a child; `depth` is the depth of the child. -/
structure Edge where
  depth : Nat
  parent : TreeNode
  child : TreeNode

mutual

/-- The edges below a node at `depth`. -/
def edgesFrom (depth : Nat) : TreeNode → List Edge
  | ⟨id, text, condition, children⟩ =>
    edgesAll (depth + 1) ⟨id, text, condition, children⟩ children

/-- The edges from a parent to some children at `depth`, and those below them. -/
def edgesAll (depth : Nat) (parent : TreeNode) : List TreeNode → List Edge
  | [] => []
  | n :: rest => ⟨depth, parent, n⟩ :: (edgesFrom depth n ++ edgesAll depth parent rest)

end

/-- The edges of a tree, in pre-order of the child. -/
def edges (root : TreeNode) : List Edge := root.edgesFrom 0

/-- The edges of a node are those to its children and those below them. -/
theorem edgesFrom_eq (depth : Nat) (n : TreeNode) :
    n.edgesFrom depth = edgesAll (depth + 1) n n.children := by
  cases n
  rw [edgesFrom]

mutual

/-- Apart from the root the pre-order is the list of the edges, read by their lower ends.  So
    whatever is recorded once for each edge is recorded once for each node but the root. -/
theorem preorderFrom_eq_cons_edges (d : Nat) :
    ∀ r : TreeNode,
      r.preorderFrom d = (d, r) :: (r.edgesFrom d).map fun e => (e.depth, e.child)
  | ⟨id, text, condition, children⟩ => by
    rw [preorderFrom_eq, edgesFrom_eq, preorderAll_eq_edges (d + 1) _ children]

/-- The same for the children of a node: each of them is the lower end of an edge. -/
theorem preorderAll_eq_edges (d : Nat) (parent : TreeNode) :
    ∀ rs : List TreeNode,
      preorderAll d rs = (edgesAll d parent rs).map fun e => (e.depth, e.child)
  | [] => by simp [preorderAll, edgesAll]
  | c :: rest => by
    simp [preorderAll, edgesAll, preorderFrom_eq_cons_edges d c,
      preorderAll_eq_edges d parent rest]

end

/-- The pre-order is the root and the children of the edges. -/
theorem preorder_eq_cons_edges (root : TreeNode) :
    root.preorder = (0, root) :: root.edges.map fun e => (e.depth, e.child) :=
  preorderFrom_eq_cons_edges 0 root

mutual

/-- An edge leads from a node that is listed to one of its children, one level further down. -/
theorem of_mem_edgesFrom {d : Nat} {e : Edge} :
    ∀ r : TreeNode, e ∈ r.edgesFrom d →
      ∃ k, e.depth = k + 1 ∧ (k, e.parent) ∈ r.preorderFrom d ∧ e.child ∈ e.parent.children
  | ⟨id, text, condition, children⟩, h => by
    rw [edgesFrom_eq] at h
    rw [preorderFrom_eq]
    rcases of_mem_edgesAll children h with ⟨hp, hd, hc⟩ | ⟨k, hk, hparent, hc⟩
    · rw [hp]
      exact ⟨d, hd, List.mem_cons_self, hc⟩
    · exact ⟨k, hk, List.mem_cons_of_mem _ hparent, hc⟩

theorem of_mem_edgesAll {d : Nat} {parent : TreeNode} {e : Edge} :
    ∀ rs : List TreeNode, e ∈ edgesAll d parent rs →
      (e.parent = parent ∧ e.depth = d ∧ e.child ∈ rs)
      ∨ ∃ k, e.depth = k + 1 ∧ (k, e.parent) ∈ preorderAll d rs ∧ e.child ∈ e.parent.children
  | [], h => by simp [edgesAll] at h
  | c :: rest, h => by
    rw [edgesAll] at h
    rw [preorderAll]
    rcases List.mem_cons.1 h with rfl | h
    · exact .inl ⟨rfl, rfl, List.mem_cons_self⟩
    rcases List.mem_append.1 h with h | h
    · obtain ⟨k, hk, hparent, hc⟩ := of_mem_edgesFrom c h
      exact .inr ⟨k, hk, List.mem_append_left _ hparent, hc⟩
    · rcases of_mem_edgesAll rest h with ⟨hp, hd, hc⟩ | ⟨k, hk, hparent, hc⟩
      · exact .inl ⟨hp, hd, List.mem_cons_of_mem _ hc⟩
      · exact .inr ⟨k, hk, List.mem_append_right _ hparent, hc⟩

end

/-- The edges to the children of a node are among those from it, each before the edges that are
    below that child. -/
theorem mem_edgesAll_of_mem {d : Nat} {parent c : TreeNode} {rs : List TreeNode} (hc : c ∈ rs) :
    ⟨d, parent, c⟩ ∈ edgesAll d parent rs := by
  induction rs with
  | nil => nomatch hc
  | cons r rest ih =>
    rw [edgesAll]
    rcases List.mem_cons.1 hc with rfl | hc
    · exact List.mem_cons_self
    · exact List.mem_cons_of_mem _ (List.mem_append_right _ (ih hc))

mutual

/-- And from every node that is listed an edge leads to each of its children. -/
theorem mem_edgesFrom {d k : Nat} {parent c : TreeNode} (hc : c ∈ parent.children) :
    ∀ r : TreeNode, (k, parent) ∈ r.preorderFrom d → ⟨k + 1, parent, c⟩ ∈ r.edgesFrom d
  | ⟨id, text, condition, children⟩, h => by
    rw [preorderFrom_eq] at h
    rw [edgesFrom_eq]
    rcases List.mem_cons.1 h with heq | h
    · obtain ⟨rfl, rfl⟩ := Prod.mk.inj heq
      exact mem_edgesAll_of_mem hc
    · exact mem_edgesAll hc children h

theorem mem_edgesAll {d k : Nat} {parent above c : TreeNode} (hc : c ∈ parent.children) :
    ∀ rs : List TreeNode, (k, parent) ∈ preorderAll d rs →
      ⟨k + 1, parent, c⟩ ∈ edgesAll d above rs
  | [], h => by simp [preorderAll] at h
  | r :: rest, h => by
    rw [preorderAll] at h
    rw [edgesAll]
    refine List.mem_cons_of_mem _ ?_
    rcases List.mem_append.1 h with h | h
    · exact List.mem_append_left _ (mem_edgesFrom hc r h)
    · exact List.mem_append_right _ (mem_edgesAll hc rest h)

end

/-- `parent` is the parent of `child`, which lies at depth `limit` or above. -/
def EdgeWithin (root : TreeNode) (limit : Nat) (parent child : TreeNode) : Prop :=
  ∃ depth, root.At depth parent ∧ child ∈ parent.children ∧ depth + 1 ≤ limit

theorem edgeWithin_iff {root parent child : TreeNode} {limit : Nat} :
    root.EdgeWithin limit parent child
      ↔ ∃ e ∈ root.edges, e.depth ≤ limit ∧ e.parent = parent ∧ e.child = child := by
  constructor
  · rintro ⟨depth, hat, hc, hle⟩
    exact ⟨_, mem_edgesFrom hc root (mem_preorder_iff.2 hat), hle, rfl, rfl⟩
  · rintro ⟨e, he, hle, rfl, rfl⟩
    obtain ⟨k, hk, hparent, hc⟩ := of_mem_edgesFrom root he
    exact ⟨k, mem_preorder_iff.1 hparent, hc, by omega⟩

/-! ## Distinct ids -/

/-- No id occurs twice in the tree. -/
def DistinctIds (root : TreeNode) : Prop := (root.preorder.map fun v => v.2.id).Nodup

namespace DistinctIds

variable {root : TreeNode} (h : root.DistinctIds)

include h

/-- The ids of the children of the edges are distinct. -/
theorem edges_nodup : (root.edges.map fun e => e.child.id).Nodup := by
  have hids : (root.preorder.map fun v => v.2.id).Nodup := h
  rw [preorder_eq_cons_edges, List.map_cons, List.map_map] at hids
  exact (List.nodup_cons.1 hids).2

/-- Nodes with one id are one node, at one depth. -/
theorem eq_of_id_eq {n n' : TreeNode} {d d' : Nat} (hn : root.At d n) (hn' : root.At d' n')
    (hid : n.id = n'.id) : d = d' ∧ n = n' :=
  Prod.mk.inj (List.inj_on_of_nodup_map h (mem_preorder_iff.2 hn) (mem_preorder_iff.2 hn') hid)

/-- No edge runs against another: a node is never the parent of its parent. -/
theorem edge_asymm {limit : Nat} {p c p' c' : TreeNode} (he : root.EdgeWithin limit p c)
    (he' : root.EdgeWithin limit p' c') : ¬ (p.id = c'.id ∧ c.id = p'.id) := by
  rintro ⟨hpc, hcp⟩
  obtain ⟨d, hp, hc, -⟩ := he
  obtain ⟨d', hp', hc', -⟩ := he'
  have h₁ := (h.eq_of_id_eq hp (.child hp' hc') hpc).1
  have h₂ := (h.eq_of_id_eq (.child hp hc) hp' hcp).1
  omega

end DistinctIds

end BranchProbe.TreeNode
