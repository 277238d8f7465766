/-
  What the builder draws and what it notes.

  1. `TreeNode.drawFrom` is the drawn tree alone, without the notes that the builder carries along.
  2. `renderFrom_eq`: the builder draws that tree, notes the parent of every child within the limit
     in pre-order, and warns of every node at the limit that has children, in pre-order.
  3. `find?_parents_iff`: with distinct ids the parents noted are those of the tree.
  4. `forall₂_shows`: the pre-order of the drawn tree follows the walk of the tree node by node.
  5. `DecisionTree.renderModel_eq_some`: the model of a decision tree is that of its root.

  The step is one node: everything below the limit is dropped there, so what the recursion leaves
  out is exactly what the filters by depth leave out.
-/
import BranchProbe.Proofs.Lookup
import BranchProbe.Proofs.Tree.Limits
import BranchProbe.Render.Model
import Mathlib.Data.List.Forall2

namespace BranchProbe

namespace TreeNode

/-! ## The drawn tree -/

mutual

/-- A node at `depth` as it is drawn, with what is drawn below it. -/
def drawFrom (rules : BuildRules) (depth : Nat) : TreeNode → RenderNode
  | ⟨id, text, condition, children⟩ =>
    { label := text
      id
      condition := condition.getD RenderNode.noCondition
      isActive := rules.active.contains id
      weight := contentWeight text condition
      children := if rules.limit ≤ depth then [] else drawAll rules (depth + 1) children }

/-- Some nodes as they are drawn. -/
def drawAll (rules : BuildRules) (depth : Nat) : List TreeNode → List RenderNode
  | [] => []
  | n :: rest => n.drawFrom rules depth :: drawAll rules depth rest

end

/-- The tree as it is drawn. -/
def draw (rules : BuildRules) (n : TreeNode) : RenderNode := n.drawFrom rules 0

/-- What the notes say of an edge: the id of the child, and of its parent. -/
def Edge.entry (e : Edge) : String × String := (e.child.id, e.parent.id)

/-- The edges to children at depth `limit` or above. -/
def edgesWithin (limit : Nat) (edges : List Edge) : List Edge :=
  edges.filter fun e => e.depth ≤ limit

/-- The nodes at depth `limit` that have children. -/
def cutAt (limit : Nat) (visited : List (Nat × TreeNode)) : List (Nat × TreeNode) :=
  visited.filter fun v => v.1 = limit ∧ v.2.children ≠ []

/-- The warning for a node that loses its children. -/
def cutWarning (v : Nat × TreeNode) : String :=
  "node " ++ v.2.id ++ " at depth " ++ toString v.1 ++ " exceeds the depth limit, "
    ++ toString v.2.children.length ++ " children dropped"

/-- The notes after some edges and some nodes. -/
def notesAfter (limit : Nat) (notes : BuildNotes) (edges : List Edge)
    (visited : List (Nat × TreeNode)) : BuildNotes where
  parents := notes.parents.insertAll ((edgesWithin limit edges).map Edge.entry)
  warnings := notes.warnings ++ (cutAt limit visited).map cutWarning

/-- Notes are taken edge by edge and node by node, so they can be taken for a part of the tree
    and then for the rest. -/
theorem notesAfter_append (limit : Nat) (notes : BuildNotes) (es es' : List Edge)
    (vs vs' : List (Nat × TreeNode)) :
    notesAfter limit notes (es ++ es') (vs ++ vs')
      = notesAfter limit (notesAfter limit notes es vs) es' vs' := by
  simp [notesAfter, edgesWithin, cutAt, SortedMap.insertAll_append]

/-- The notes after one edge to a child within the limit: one more parent is noted, and then the
    other edges are taken.  An edge beyond the limit would note nothing. -/
theorem notesAfter_edge {limit : Nat} {e : Edge} (he : e.depth ≤ limit) (notes : BuildNotes)
    (es : List Edge) (vs : List (Nat × TreeNode)) :
    notesAfter limit notes (e :: es) vs
      = notesAfter limit (notes.withParent e.child.id e.parent.id) es vs := by
  have hhere : notesAfter limit notes [e] [] = notes.withParent e.child.id e.parent.id := by
    simp [notesAfter, edgesWithin, cutAt, he, Edge.entry, BuildNotes.withParent]
  rw [← hhere]
  exact notesAfter_append limit notes [e] es [] vs

theorem notesAfter_node {limit d : Nat} (hd : d < limit) (n : TreeNode) (notes : BuildNotes)
    (es : List Edge) (vs : List (Nat × TreeNode)) :
    notesAfter limit notes es ((d, n) :: vs) = notesAfter limit notes es vs := by
  simp [notesAfter, cutAt, Nat.ne_of_lt hd]

/-- Below the limit there is nothing to note: the edges and nodes there are all too deep, and
    notes are taken within the limit only. -/
theorem notesAfter_below {limit d : Nat} (h : limit < d) (notes : BuildNotes) (parent : TreeNode)
    (ns : List TreeNode) :
    notesAfter limit notes (edgesAll d parent ns) (preorderAll d ns) = notes := by
  have hdepth : ∀ e ∈ edgesAll d parent ns, limit < e.depth := by
    intro e he
    have hmem : (e.depth, e.child) ∈ preorderAll d ns := by
      rw [preorderAll_eq_edges d parent]
      exact List.mem_map_of_mem he
    exact Nat.lt_of_lt_of_le h (le_of_mem_preorderAll hmem)
  have hes : edgesWithin limit (edgesAll d parent ns) = [] := by
    rw [edgesWithin, List.filter_eq_nil_iff]
    intro e he
    simpa using hdepth e he
  have hvs : cutAt limit (preorderAll d ns) = [] := by
    rw [cutAt, List.filter_eq_nil_iff]
    intro v hv
    have hle := le_of_mem_preorderAll hv
    have hne : v.1 ≠ limit := by omega
    simp [hne]
  simp [notesAfter, hes, hvs]

/-- One step of the builder, with the recursion on the children taken out of the match. -/
theorem renderFrom_unfold (rules : BuildRules) (d : Nat) (n : TreeNode) (notes : BuildNotes) :
    n.renderFrom rules d notes =
      let below := if rules.limit ≤ d && !n.children.isEmpty then
          ([], notes.withCut n.id d n.children.length)
        else renderAll rules n.id (d + 1) n.children notes
      (⟨n.text, n.id, n.condition.getD RenderNode.noCondition, rules.active.contains n.id,
        contentWeight n.text n.condition, below.1⟩, below.2) := by
  cases n
  rw [renderFrom]

/-- One step of drawing alone, without the notes that the builder takes. -/
theorem drawFrom_unfold (rules : BuildRules) (d : Nat) (n : TreeNode) :
    n.drawFrom rules d =
      ⟨n.text, n.id, n.condition.getD RenderNode.noCondition, rules.active.contains n.id,
        contentWeight n.text n.condition,
        if rules.limit ≤ d then [] else drawAll rules (d + 1) n.children⟩ := by
  cases n
  rw [drawFrom]

mutual

/-- The builder draws the tree, and notes its edges and its cuts in pre-order. -/
theorem renderFrom_eq (rules : BuildRules) {d : Nat} (hd : d ≤ rules.limit) :
    ∀ (n : TreeNode) (notes : BuildNotes), n.renderFrom rules d notes
      = (n.drawFrom rules d,
          notesAfter rules.limit notes (n.edgesFrom d) (n.preorderFrom d))
  | ⟨id, text, condition, children⟩, notes => by
    rw [renderFrom_unfold, drawFrom_unfold, edgesFrom_eq, preorderFrom_eq]
    dsimp only
    rcases Nat.lt_or_eq_of_le hd with hlt | rfl
    · rw [notesAfter_node hlt]
      simp [Nat.not_le.2 hlt, renderAll_eq rules (Nat.succ_le_of_lt hlt)
        ⟨id, text, condition, children⟩ children notes]
    · -- at the limit a leaf stays as it is, and any other node is cut
      have hbelow := notesAfter_below (Nat.lt_succ_self rules.limit)
        (notesAfter rules.limit notes [] [(rules.limit, ⟨id, text, condition, children⟩)])
        ⟨id, text, condition, children⟩ children
      rw [← notesAfter_append, List.nil_append, List.singleton_append] at hbelow
      rw [hbelow]
      cases children with
      | nil => simp [renderAll, notesAfter, edgesWithin, cutAt]
      | cons c rest => simp [notesAfter, edgesWithin, cutAt, BuildNotes.withCut, cutWarning]

/-- The builder draws some children and takes the notes of their edges and of the nodes below, in
    pre-order.  This goes along with `renderFrom_eq` in one induction. -/
theorem renderAll_eq (rules : BuildRules) {d : Nat} (hd : d ≤ rules.limit) (parent : TreeNode) :
    ∀ (ns : List TreeNode) (notes : BuildNotes), renderAll rules parent.id d ns notes
      = (drawAll rules d ns,
          notesAfter rules.limit notes (edgesAll d parent ns) (preorderAll d ns))
  | [], notes => by
    simp [renderAll, drawAll, notesAfter, edgesAll, preorderAll, edgesWithin, cutAt]
  | n :: rest, notes => by
    rw [renderAll, drawAll, edgesAll, preorderAll, notesAfter_edge hd, notesAfter_append,
      renderFrom_eq rules hd n]
    simp only
    rw [renderAll_eq rules hd parent rest]

end

/-- The builder draws the tree, and notes its edges and its cuts in pre-order. -/
theorem render_eq (rules : BuildRules) (n : TreeNode) :
    n.render rules = ⟨n.draw rules,
      SortedMap.empty.insertAll ((edgesWithin rules.limit n.edges).map Edge.entry),
      (cutAt rules.limit n.preorder).map cutWarning⟩ := by
  rw [render, renderFrom_eq rules (Nat.zero_le _)]
  simp [notesAfter, BuildNotes.empty, draw, edges, preorder]

/-- The ids of the children of the edges within the limit are distinct if all ids are. -/
theorem edgesWithin_nodup {root : TreeNode} (h : root.DistinctIds) (limit : Nat) :
    ((edgesWithin limit root.edges).map fun e => e.child.id).Nodup :=
  h.edges_nodup.sublist (List.filter_sublist.map _)

/-- With distinct ids, the parent noted for an id is the one that the tree has for it. -/
theorem find?_parents_iff {root : TreeNode} (h : root.DistinctIds) (rules : BuildRules)
    (child parent : String) :
    (root.render rules).parents.find? child = some parent
      ↔ ∃ p c, root.EdgeWithin rules.limit p c ∧ p.id = parent ∧ c.id = child := by
  have hnodup : (((edgesWithin rules.limit root.edges).map Edge.entry).map (·.1)).Nodup := by
    rw [List.map_map]
    exact edgesWithin_nodup h rules.limit
  rw [render_eq, SortedMap.find?_insertAll_empty hnodup]
  simp only [List.mem_map, edgesWithin, List.mem_filter, decide_eq_true_eq, Edge.entry,
    Prod.mk.injEq, edgeWithin_iff]
  constructor
  · rintro ⟨e, ⟨he, hle⟩, hc, hp⟩
    exact ⟨e.parent, e.child, ⟨e, he, hle, rfl, rfl⟩, hp, hc⟩
  · rintro ⟨p, c, ⟨e, he, hle, rfl, rfl⟩, hp, hc⟩
    exact ⟨e, ⟨he, hle⟩, hc, hp⟩

end TreeNode

/-! ## The pre-order of the drawn tree -/

namespace RenderNode

mutual

/-- All drawn nodes with their depth, in pre-order; the node itself is at `depth`. -/
def preorderFrom (depth : Nat) : RenderNode → List (Nat × RenderNode)
  | ⟨label, id, condition, isActive, weight, children⟩ =>
    (depth, ⟨label, id, condition, isActive, weight, children⟩)
      :: preorderAll (depth + 1) children

/-- The drawn nodes of some subtrees one after the other. -/
def preorderAll (depth : Nat) : List RenderNode → List (Nat × RenderNode)
  | [] => []
  | n :: rest => preorderFrom depth n ++ preorderAll depth rest

end

/-- All drawn nodes with their depth, in pre-order. -/
def preorder (r : RenderNode) : List (Nat × RenderNode) := r.preorderFrom 0

/-- What is drawn of a node. -/
structure Shows (active : List String) (n : TreeNode) (r : RenderNode) : Prop where
  label : r.label = n.text
  id : r.id = n.id
  condition : r.condition = n.condition.getD noCondition
  weight : r.weight = max n.text.length (n.condition.getD "").length
  isActive : r.isActive = true ↔ n.id ∈ active

end RenderNode

namespace TreeNode

open RenderNode (Shows)

mutual

/-- What is drawn shows the nodes that the walk visits, one by one and at the same depths.  The
    induction is on the tree. -/
theorem forall₂_showsFrom (rules : BuildRules) (d : Nat) :
    ∀ n : TreeNode, List.Forall₂ (fun v r => v.1 = r.1 ∧ Shows rules.active v.2 r.2)
      (n.walkFrom rules.limit d).visited ((n.drawFrom rules d).preorderFrom d)
  | ⟨id, text, condition, children⟩ => by
    have hshows : ∀ below, Shows rules.active ⟨id, text, condition, children⟩
        ⟨text, id, condition.getD RenderNode.noCondition, rules.active.contains id,
          contentWeight text condition, below⟩ :=
      fun below => ⟨rfl, rfl, rfl, rfl, by simp⟩
    rw [walkFrom_eq, drawFrom, RenderNode.preorderFrom]
    split
    · next hempty =>
      obtain rfl : children = [] := List.isEmpty_iff.1 hempty
      exact .cons ⟨rfl, hshows _⟩ (by simp [drawAll, RenderNode.preorderAll])
    · split
      · exact .cons ⟨rfl, hshows _⟩ (by simp [RenderNode.preorderAll])
      · exact .cons ⟨rfl, hshows _⟩ (forall₂_showsAll rules (d + 1) children)

theorem forall₂_showsAll (rules : BuildRules) (d : Nat) :
    ∀ ns : List TreeNode, List.Forall₂ (fun v r => v.1 = r.1 ∧ Shows rules.active v.2 r.2)
      (walkAll rules.limit d ns).visited (RenderNode.preorderAll d (drawAll rules d ns))
  | [] => by simp [walkAll, drawAll, RenderNode.preorderAll]
  | n :: rest => by
    rw [walkAll, drawAll, RenderNode.preorderAll]
    exact List.rel_append (forall₂_showsFrom rules d n) (forall₂_showsAll rules d rest)

end

/-- The pre-order of the drawn tree follows the walk of the tree, node by node. -/
theorem forall₂_shows (rules : BuildRules) (n : TreeNode) :
    List.Forall₂ (fun v r => v.1 = r.1 ∧ Shows rules.active v.2 r.2)
      (n.walk rules.limit).visited (n.render rules).root.preorder := by
  rw [render_eq]
  exact forall₂_showsFrom rules 0 n

/-- The drawn tree has the ids that the walk sees, in their order. -/
theorem drawn_ids (rules : BuildRules) (n : TreeNode) :
    ((n.render rules).root.preorder.map fun r => r.2.id)
      = (n.walk rules.limit).visited.map fun v => v.2.id := by
  rw [← List.forall₂_eq_eq_eq, List.forall₂_map_left_iff, List.forall₂_map_right_iff]
  exact (forall₂_shows rules n).flip.imp fun r v hv => hv.2.id

end TreeNode

/-! ## The model of a decision tree -/

namespace DecisionTree

variable {t : DecisionTree} (path : List String) (limit : Nat)

/-- A tree without root has no model, whatever the path and the limit are. -/
theorem renderModel_eq_none (h : t.root = none) : (t.renderModel path limit).value = none := by
  rw [renderModel, h]
  rfl

/-- A tree with a root has the model of that root.  Its samples play no part in what is drawn. -/
theorem renderModel_eq_some {root : TreeNode} (h : t.root = some root) :
    (t.renderModel path limit).value = some (root.renderModel path limit).value := by
  rw [renderModel, h]
  rfl

end DecisionTree

end BranchProbe
