/-
  The active links are edges of the tree, and the edges that the path goes along.

  1. With distinct ids the builder's parents are those of the tree, so a link is active iff it is
     an edge whose child lies within the limit and stands on the path after its first position
     (`mem_activeLinks_iff`).  A stale or invented id has no parent and no link.
  2. The test whether two nodes are linked does not ask which one is the parent.  It finds no false
     edge, since no edge of a tree runs against another (`DistinctIds.edge_asymm`).
  3. A path that goes down from child to child has all its steps as links (`filterMap_chain`).
-/
import BranchProbe.Proofs.Render.Builder
import BranchProbe.Render.Model

namespace BranchProbe

/-- The tree has no root, or no id twice. -/
def DecisionTree.DistinctIds (t : DecisionTree) : Prop :=
  ∀ root, t.root = some root → root.DistinctIds

theorem Link.connects_iff {l : Link} {a b : String} :
    l.connects a b = true ↔ l = ⟨a, b⟩ ∨ l = ⟨b, a⟩ := by
  cases l
  simp [connects]

namespace TreeNode

section DistinctIds

variable {root : TreeNode} (h : root.DistinctIds) (path : List String) (limit : Nat)

include h

/-- The links of the model are the edges within the limit whose child is on the path. -/
theorem mem_activeLinks_iff {l : Link} :
    l ∈ (root.renderModel path limit).value.activeLinks
      ↔ ∃ p c, root.EdgeWithin limit p c ∧ c.id ∈ path.drop 1 ∧ l = ⟨p.id, c.id⟩ := by
  simp only [renderModel, activeLinks, List.mem_filterMap, Option.map_eq_some_iff]
  constructor
  · rintro ⟨child, hchild, parent, hfind, rfl⟩
    obtain ⟨p, c, he, rfl, rfl⟩ := (find?_parents_iff h ⟨path, limit⟩ child parent).1 hfind
    exact ⟨p, c, he, hchild, rfl⟩
  · rintro ⟨p, c, he, hc, rfl⟩
    have hfind := (find?_parents_iff h ⟨path, limit⟩ c.id p.id).2 ⟨p, c, he, rfl, rfl⟩
    exact ⟨c.id, hc, p.id, hfind, rfl⟩

/-- Two ids are linked iff they are the ends of an edge that the path goes along. -/
theorem isActiveLink_iff {a b : String} :
    (root.renderModel path limit).value.isActiveLink a b = true
      ↔ ∃ p c, root.EdgeWithin limit p c ∧ c.id ∈ path.drop 1
        ∧ ((a = p.id ∧ b = c.id) ∨ (a = c.id ∧ b = p.id)) := by
  rw [RenderModel.isActiveLink, List.any_eq_true]
  constructor
  · rintro ⟨l, hl, hconnects⟩
    obtain ⟨p, c, he, hc, rfl⟩ := (mem_activeLinks_iff h path limit).1 hl
    refine ⟨p, c, he, hc, ?_⟩
    rcases Link.connects_iff.1 hconnects with heq | heq
    · obtain ⟨rfl, rfl⟩ := Link.mk.inj heq
      exact .inl ⟨rfl, rfl⟩
    · obtain ⟨rfl, rfl⟩ := Link.mk.inj heq
      exact .inr ⟨rfl, rfl⟩
  · rintro ⟨p, c, he, hc, hends⟩
    refine ⟨⟨p.id, c.id⟩, (mem_activeLinks_iff h path limit).2 ⟨p, c, he, hc, rfl⟩, ?_⟩
    rw [Link.connects_iff]
    rcases hends with ⟨rfl, rfl⟩ | ⟨rfl, rfl⟩
    · exact .inl rfl
    · exact .inr rfl

/-- An edge is found active, in this direction, iff the path goes along it. -/
theorem isActiveLink_edge_iff {p c : TreeNode} (he : root.EdgeWithin limit p c) :
    (root.renderModel path limit).value.isActiveLink p.id c.id = true ↔ c.id ∈ path.drop 1 := by
  rw [isActiveLink_iff h]
  constructor
  · rintro ⟨p', c', he', hc', ⟨-, hcid⟩ | ⟨hpc, hcp⟩⟩
    · rwa [hcid]
    · -- the link found runs the other way, against the edge asked for
      exact absurd ⟨hpc, hcp⟩ (h.edge_asymm he he')
  · intro hc
    exact ⟨p, c, he, hc, .inl ⟨rfl, rfl⟩⟩

end DistinctIds

/-- Down a chain of children every step is a link, as long as it stays within the limit.  The
    induction is on the chain; the parents that were noted are asked once for each step. -/
theorem filterMap_chain {root : TreeNode} {limit : Nat} (parents : Parents)
    (hparents : ∀ p c, root.EdgeWithin limit p c → parents.find? c.id = some p.id) :
    ∀ (n : TreeNode) (rest : List TreeNode) (depth : Nat), root.At depth n →
      ((n :: rest).IsChain fun p c => c ∈ p.children) → depth + rest.length ≤ limit →
      ((rest.map TreeNode.id).filterMap fun child =>
          (parents.find? child).map fun parent => (⟨parent, child⟩ : Link))
        = List.zipWith Link.mk ((n :: rest).map TreeNode.id) (rest.map TreeNode.id)
  | _, [], _, _, _, _ => rfl
  | n, c :: rest, depth, hn, hchain, hle => by
    obtain ⟨hc, hrest⟩ := List.isChain_cons_cons.1 hchain
    rw [List.length_cons] at hle
    have hlink := hparents n c ⟨depth, hn, hc, by omega⟩
    have ih := filterMap_chain parents hparents c rest (depth + 1) (.child hn hc) hrest (by omega)
    simp only [List.map_cons, List.filterMap_cons, hlink, Option.map_some, List.zipWith_cons_cons]
    rw [ih, List.map_cons]

theorem exists_drawn {root n : TreeNode} {depth : Nat} (rules : BuildRules)
    (hn : root.At depth n) (hle : depth ≤ rules.limit) :
    ∃ r ∈ (root.render rules).root.preorder, r.2.id = n.id := by
  have hmem : n.id ∈ (root.walk rules.limit).visited.map fun v => v.2.id := by
    rw [walk_visited]
    have hwithin : (depth, n) ∈ root.preorder.filter fun v => v.1 ≤ rules.limit :=
      List.mem_filter.2 ⟨mem_preorder_iff.2 hn, by simpa using hle⟩
    exact List.mem_map.2 ⟨(depth, n), hwithin, rfl⟩
  rw [← drawn_ids] at hmem
  exact List.mem_map.1 hmem

end TreeNode

/-- The active links of a tree with distinct ids, for any path and limit.  In the order of the
    path they are the edges to its nodes after the first, as far as these are children within the
    limit; whether two nodes are linked can be asked in either direction; both ends are drawn; and
    a path from the root from child to child has all its steps as links. -/
theorem activeLinks_eq_edges_of_path (t : DecisionTree) (h : t.DistinctIds) (path : List String)
    (limit : Nat) :
    (t.root = none → (t.renderModel path limit).value = none)
    ∧ ∀ root, t.root = some root → ∃ model, (t.renderModel path limit).value = some model
      ∧ (∃ parent : String → Option String,
          (∀ c p, parent c = some p ↔ ∃ n n', root.EdgeWithin limit n n' ∧ n.id = p ∧ n'.id = c)
          ∧ model.activeLinks = (path.drop 1).filterMap fun c => (parent c).map fun p => ⟨p, c⟩)
      ∧ (∀ a b, model.isActiveLink a b = true
          ↔ ∃ n n', root.EdgeWithin limit n n' ∧ n'.id ∈ path.drop 1
            ∧ ((a = n.id ∧ b = n'.id) ∨ (a = n'.id ∧ b = n.id)))
      ∧ (∀ n n', root.EdgeWithin limit n n' →
          (model.isActiveLink n.id n'.id = true ↔ n'.id ∈ path.drop 1))
      ∧ (∀ l ∈ model.activeLinks,
          (∃ r ∈ model.root.preorder, r.2.id = l.source)
          ∧ ∃ r ∈ model.root.preorder, r.2.id = l.target)
      ∧ (∀ nodes : List TreeNode, ((root :: nodes).IsChain fun p c => c ∈ p.children) →
          nodes.length ≤ limit → path = (root :: nodes).map TreeNode.id →
          model.activeLinks = List.zipWith Link.mk path (path.drop 1)) := by
  refine ⟨DecisionTree.renderModel_eq_none path limit, ?_⟩
  intro root hroot
  have hids := h root hroot
  have hparents := TreeNode.find?_parents_iff hids ⟨path, limit⟩
  refine ⟨_, DecisionTree.renderModel_eq_some path limit hroot, ⟨_, hparents, rfl⟩, fun a b => TreeNode.isActiveLink_iff hids path limit,
    fun n n' he => TreeNode.isActiveLink_edge_iff hids path limit he, fun l hl => ?_,
    fun nodes hchain hle hpath => ?_⟩
  · obtain ⟨p, c, ⟨depth, hat, hc, hle⟩, -, rfl⟩ :=
      (TreeNode.mem_activeLinks_iff hids path limit).1 hl
    exact ⟨TreeNode.exists_drawn ⟨path, limit⟩ hat (Nat.le_of_succ_le hle),
      TreeNode.exists_drawn ⟨path, limit⟩ (.child hat hc) hle⟩
  · have hsteps := TreeNode.filterMap_chain _
      (fun p c he => (hparents c.id p.id).2 ⟨p, c, he, rfl, rfl⟩) root nodes 0 .root hchain
      (by simpa using hle)
    subst hpath
    exact hsteps

/-- A root with two children, one of them with a child of its own. -/
def DecisionTree.fork : DecisionTree :=
  ⟨some ⟨"a", "", none, [⟨"b", "", none, [⟨"d", "", none, []⟩]⟩, ⟨"c", "", none, []⟩]⟩, []⟩

/-- Down to the deepest node both steps are links, and the edge to the other child is not. -/
theorem fork_activeLinks :
    DecisionTree.fork.DistinctIds
      ∧ ∃ model, (DecisionTree.fork.renderModel ["a", "b", "d"] 2).value = some model
        ∧ model.activeLinks = [⟨"a", "b"⟩, ⟨"b", "d"⟩]
        ∧ model.isActiveLink "a" "c" = false := by
  have hids : DecisionTree.fork.DistinctIds := by
    rintro root ⟨⟩
    simp [TreeNode.DistinctIds, TreeNode.preorder, TreeNode.preorderFrom, TreeNode.preorderAll]
  obtain ⟨model, hmodel, -, -, hedge, -, hchain⟩ :=
    (activeLinks_eq_edges_of_path DecisionTree.fork hids ["a", "b", "d"] 2).2 _ rfl
  refine ⟨hids, model, hmodel, ?_, ?_⟩
  · exact hchain [⟨"b", "", none, [⟨"d", "", none, []⟩]⟩, ⟨"d", "", none, []⟩] (by simp)
      (by decide) rfl
  · have hac := hedge ⟨"a", "", none, [⟨"b", "", none, [⟨"d", "", none, []⟩]⟩, ⟨"c", "", none, []⟩]⟩
      ⟨"c", "", none, []⟩ ⟨0, .root, by simp, by decide⟩
    simpa using hac

end BranchProbe
