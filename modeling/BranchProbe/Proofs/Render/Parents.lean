/-
  The map of parents that the builder leaves.

  1. `find?_parents`: of the nodes with one id within the limit the last one in pre-order decides
     whose child the id is, also where an ancestor or a later sibling has the same id.  The builder
     notes a child before it goes on below it, so the notes stand in the order of `edgesWithin`.
  2. `Parents.follow` goes up the map step by step.  With distinct ids each step is a step up the
     tree: `follow_ancestor` as far as the root, `follow_beyond` further on, where nothing is found.
  3. `parents_exact` puts keys, values, size and paths together.  No path comes back to where it
     began, since the depth falls by one at every step (`follow_ne_self`).
-/
import BranchProbe.Proofs.Render.Builder

namespace BranchProbe

/-- The id that is reached by some steps to the parent. -/
def Parents.follow (parents : Parents) : Nat → String → Option String
  | 0, id => some id
  | steps + 1, id => (parents.find? id).bind (follow parents steps)

/-- From a node without a parent no step can be made. -/
theorem Parents.follow_eq_none {parents : Parents} {id : String} (h : parents.find? id = none)
    (steps : Nat) : parents.follow (steps + 1) id = none := by
  rw [follow, h]
  rfl

namespace TreeNode

/-! ## Keys and values -/

/-- `e` is the last one of the edges to a node with this id. -/
def LastTo (edges : List Edge) (id : String) (e : Edge) : Prop :=
  ∃ before after, edges = before ++ e :: after ∧ e.child.id = id ∧ ∀ e' ∈ after, e'.child.id ≠ id

/-- The parent noted for an id is that of the last node with it. -/
theorem find?_parents (root : TreeNode) (rules : BuildRules) (child parent : String) :
    (root.render rules).parents.find? child = some parent
      ↔ ∃ e, LastTo (edgesWithin rules.limit root.edges) child e ∧ e.parent.id = parent := by
  rw [render_eq, SortedMap.find?_insertAll_empty_iff_last]
  constructor
  · rintro ⟨before, after, hedges, hafter⟩
    obtain ⟨es, es', hes, rfl, htail⟩ := List.map_eq_append_iff.1 hedges
    obtain ⟨e, rest, rfl, he, rfl⟩ := List.map_eq_cons_iff.1 htail
    obtain ⟨rfl, rfl⟩ := Prod.mk.inj he
    exact ⟨e, ⟨es, rest, hes, rfl, fun e' he' => hafter _ (List.mem_map_of_mem he')⟩, rfl⟩
  · rintro ⟨e, ⟨before, after, hedges, rfl, hafter⟩, rfl⟩
    refine ⟨before.map Edge.entry, after.map Edge.entry, ?_, List.forall_mem_map.2 hafter⟩
    rw [hedges, List.map_append, List.map_cons]
    rfl

/-- The ids with a parent are those of the nodes within the limit other than the root. -/
theorem mem_keys_parents_iff (root : TreeNode) (rules : BuildRules) (id : String) :
    id ∈ (root.render rules).parents.keys
      ↔ ∃ depth n, root.At (depth + 1) n ∧ depth + 1 ≤ rules.limit ∧ n.id = id := by
  rw [render_eq, SortedMap.mem_keys_insertAll_empty]
  constructor
  · rintro ⟨entry, hentry, rfl⟩
    obtain ⟨e, he, rfl⟩ := List.mem_map.1 hentry
    obtain ⟨he, hle⟩ := List.mem_filter.1 he
    obtain ⟨depth, hdepth, hparent, hc⟩ := of_mem_edgesFrom root he
    have hat : root.At (depth + 1) e.child := .child (mem_preorder_iff.1 hparent) hc
    rw [hdepth, decide_eq_true_eq] at hle
    exact ⟨depth, e.child, hat, hle, rfl⟩
  · rintro ⟨depth, n, hn, hle, rfl⟩
    cases hn with
    | @child _ parent _ hparent hn =>
      have he : ⟨depth + 1, parent, n⟩ ∈ root.edges :=
        mem_edgesFrom hn root (mem_preorder_iff.2 hparent)
      have hwithin : ⟨depth + 1, parent, n⟩ ∈ edgesWithin rules.limit root.edges :=
        List.mem_filter.2 ⟨he, decide_eq_true hle⟩
      exact ⟨_, List.mem_map_of_mem hwithin, rfl⟩

/-- The nodes within the limit are the root and the children of the edges within it. -/
theorem filter_preorder_eq_cons_edges (root : TreeNode) (limit : Nat) :
    (root.preorder.filter fun v => v.1 ≤ limit)
      = (0, root) :: (edgesWithin limit root.edges).map fun e => (e.depth, e.child) := by
  rw [preorder_eq_cons_edges, List.filter_cons_of_pos (by simp), List.filter_map, edgesWithin]
  rfl

/-! ## Following the parents -/

section DistinctIds

variable {root : TreeNode} (h : root.DistinctIds) (rules : BuildRules)

include h

/-- There are as many entries as nodes within the limit, but for the root. -/
theorem length_keys_parents :
    (root.render rules).parents.keys.length + 1 = (root.within rules.limit).length := by
  have hkeys := (root.render rules).parents.nodup_keys
  have hedges := edgesWithin_nodup h rules.limit
  have hperm : (root.render rules).parents.keys.Perm
      ((edgesWithin rules.limit root.edges).map fun e => e.child.id) := by
    refine (List.perm_ext_iff_of_nodup hkeys hedges).2 fun id => ?_
    rw [render_eq, SortedMap.mem_keys_insertAll_empty]
    simp [Edge.entry]
  rw [hperm.length_eq, within, filter_preorder_eq_cons_edges]
  simp

theorem find?_parents_child {p c : TreeNode} {depth : Nat} (hp : root.At depth p)
    (hc : c ∈ p.children) (hle : depth + 1 ≤ rules.limit) :
    (root.render rules).parents.find? c.id = some p.id :=
  (find?_parents_iff h rules c.id p.id).2 ⟨p, c, ⟨depth, hp, hc, hle⟩, rfl, rfl⟩

/-- A node has no parent in the map if it is the root or lies below the limit. -/
theorem find?_parents_eq_none {n : TreeNode} {depth : Nat} (hn : root.At depth n)
    (hout : depth = 0 ∨ rules.limit < depth) : (root.render rules).parents.find? n.id = none := by
  rw [Option.eq_none_iff_forall_ne_some]
  intro parent hfound
  obtain ⟨p, c, ⟨d, hp, hc, hle⟩, -, hid⟩ := (find?_parents_iff h rules _ _).1 hfound
  have hdepth := (h.eq_of_id_eq (.child hp hc) hn hid).1
  omega

/-- Some steps lead to the ancestor so many levels above.  The induction is on the way down to
    the node: its last edge is the first step up. -/
theorem follow_ancestor {n : TreeNode} {depth : Nat} (hn : root.At depth n)
    (hle : depth ≤ rules.limit) {steps : Nat} (hsteps : steps ≤ depth) :
    ∃ a, root.At (depth - steps) a ∧ (root.render rules).parents.follow steps n.id = some a.id := by
  induction hn generalizing steps with
  | root =>
    obtain rfl : steps = 0 := Nat.le_zero.1 hsteps
    exact ⟨root, .root, rfl⟩
  | @child depth p n hp hn ih =>
    cases steps with
    | zero => exact ⟨n, .child hp hn, rfl⟩
    | succ steps =>
      obtain ⟨a, ha, hfollow⟩ := ih (by omega) (Nat.le_of_succ_le_succ hsteps)
      refine ⟨a, by rwa [Nat.add_sub_add_right], ?_⟩
      rw [Parents.follow, find?_parents_child h rules hp hn hle]
      exact hfollow

theorem follow_beyond {n : TreeNode} {depth : Nat} (hn : root.At depth n) {steps : Nat}
    (hsteps : depth < steps) : (root.render rules).parents.follow steps n.id = none := by
  induction hn generalizing steps with
  | root =>
    obtain ⟨steps, rfl⟩ := Nat.exists_eq_succ_of_ne_zero (Nat.ne_of_gt hsteps)
    exact Parents.follow_eq_none (find?_parents_eq_none h rules .root (.inl rfl)) steps
  | @child depth p n hp hn ih =>
    obtain ⟨steps, rfl⟩ := Nat.exists_eq_succ_of_ne_zero (Nat.ne_of_gt (Nat.zero_lt_of_lt hsteps))
    rcases Nat.lt_or_ge rules.limit (depth + 1) with hout | hle
    · exact Parents.follow_eq_none (find?_parents_eq_none h rules (.child hp hn) (.inr hout)) steps
    · rw [Parents.follow, find?_parents_child h rules hp hn hle]
      exact ih (Nat.lt_of_succ_lt_succ hsteps)

/-- The root is reached from a node in as many steps as it lies deep, and in no other number. -/
theorem follow_eq_root_iff {n : TreeNode} {depth : Nat} (hn : root.At depth n) (steps : Nat) :
    (root.render rules).parents.follow steps n.id = some root.id
      ↔ steps = depth ∧ depth ≤ rules.limit := by
  constructor
  · intro hfollow
    rcases Nat.lt_or_ge rules.limit depth with hout | hle
    · -- below the limit there is no first step, and the node is not the root
      cases steps with
      | zero =>
        have hdepth := (h.eq_of_id_eq hn .root (Option.some.inj hfollow)).1
        omega
      | succ steps =>
        have hnone := find?_parents_eq_none h rules hn (.inr hout)
        rw [Parents.follow_eq_none hnone steps] at hfollow
        cases hfollow
    · rcases Nat.lt_or_ge depth steps with hbeyond | hsteps
      · rw [follow_beyond h rules hn hbeyond] at hfollow
        cases hfollow
      · obtain ⟨a, ha, hancestor⟩ := follow_ancestor h rules hn hle hsteps
        have hid := Option.some.inj (hancestor.symm.trans hfollow)
        have hdepth := (h.eq_of_id_eq ha .root hid).1
        omega
  · rintro ⟨rfl, hle⟩
    obtain ⟨a, ha, hfollow⟩ := follow_ancestor h rules hn hle (Nat.le_refl steps)
    rw [Nat.sub_self] at ha
    cases ha with
    | root => exact hfollow

/-- No steps lead from an id back to it.  Each step goes up one level in the tree, and with
    distinct ids an id has one level. -/
theorem follow_ne_self (id : String) (steps : Nat) :
    (root.render rules).parents.follow (steps + 1) id ≠ some id := by
  intro hfollow
  cases hfound : (root.render rules).parents.find? id with
  | none =>
    rw [Parents.follow_eq_none hfound steps] at hfollow
    cases hfollow
  | some parent =>
    obtain ⟨p, c, ⟨depth, hp, hc, hle⟩, -, rfl⟩ := (find?_parents_iff h rules _ _).1 hfound
    have hat : root.At (depth + 1) c := .child hp hc
    rcases Nat.lt_or_ge (depth + 1) (steps + 1) with hbeyond | hsteps
    · rw [follow_beyond h rules hat hbeyond] at hfollow
      cases hfollow
    · obtain ⟨a, ha, hancestor⟩ := follow_ancestor h rules hat hle hsteps
      have hid := Option.some.inj (hancestor.symm.trans hfollow)
      have hdepth := (h.eq_of_id_eq ha hat hid).1
      omega

end DistinctIds

/-- The map of parents, for any tree and limit.  It has the ids of the nodes within the limit other
    than the root, each with the parent of the last node in pre-order that carries it; `edgesWithin`
    lists these nodes in pre-order, each under its parent.  With distinct ids the root has no entry
    and every other node within the limit has one; from each of them the root is reached in as many
    steps as the node lies deep; and no steps lead back to where they began. -/
theorem parents_exact (root : TreeNode) (rules : BuildRules) :
    (∀ id, id ∈ (root.render rules).parents.keys
      ↔ ∃ depth n, root.At (depth + 1) n ∧ depth + 1 ≤ rules.limit ∧ n.id = id)
    ∧ (∀ child parent, (root.render rules).parents.find? child = some parent
      ↔ ∃ e, LastTo (edgesWithin rules.limit root.edges) child e ∧ e.parent.id = parent)
    ∧ (root.preorder.filter fun v => v.1 ≤ rules.limit)
      = (0, root) :: (edgesWithin rules.limit root.edges).map (fun e => (e.depth, e.child))
    ∧ (∀ e ∈ root.edges,
      ∃ depth, e.depth = depth + 1 ∧ root.At depth e.parent ∧ e.child ∈ e.parent.children)
    ∧ (root.DistinctIds →
      root.id ∉ (root.render rules).parents.keys
      ∧ (root.render rules).parents.keys.length + 1 = (root.within rules.limit).length
      ∧ (∀ depth n, root.At depth n → ∀ steps,
        (root.render rules).parents.follow steps n.id = some root.id
          ↔ steps = depth ∧ depth ≤ rules.limit)
      ∧ ∀ id steps, (root.render rules).parents.follow (steps + 1) id ≠ some id) := by
  refine ⟨mem_keys_parents_iff root rules, find?_parents root rules,
    filter_preorder_eq_cons_edges root rules.limit, fun e he => ?_, fun h => ⟨?_, ?_, ?_, ?_⟩⟩
  · obtain ⟨depth, hdepth, hparent, hc⟩ := of_mem_edgesFrom root he
    exact ⟨depth, hdepth, mem_preorder_iff.1 hparent, hc⟩
  · show root.id ∉ (root.render rules).parents.keys
    rw [SortedMap.mem_keys_iff, find?_parents_eq_none h rules .root (.inl rfl)]
    exact Bool.false_ne_true
  · exact length_keys_parents h rules
  · exact fun depth n hn => follow_eq_root_iff h rules hn
  · exact follow_ne_self h rules

/-- A root with two children, below one of them a chain that goes below depth two. -/
def fourLevels : TreeNode :=
  ⟨"a", "", none, [⟨"b", "", none, [⟨"d", "", none, [⟨"e", "", none, []⟩]⟩]⟩, ⟨"c", "", none, []⟩]⟩

/-- With the limit two the three nodes within it have a parent, and the root is two steps from `d`;
    from `e` it is not reached. -/
theorem fourLevels_parents :
    fourLevels.DistinctIds
    ∧ (fourLevels.render ⟨[], 2⟩).parents.keys.length = 3
    ∧ (fourLevels.render ⟨[], 2⟩).parents.follow 2 "d" = some "a"
    ∧ (fourLevels.render ⟨[], 2⟩).parents.follow 3 "e" ≠ some "a" := by
  have hids : fourLevels.DistinctIds := by
    simp [DistinctIds, fourLevels, preorder, preorderFrom, preorderAll]
  obtain ⟨-, -, -, -, hdistinct⟩ := parents_exact fourLevels ⟨[], 2⟩
  obtain ⟨-, hlength, hfollow, -⟩ := hdistinct hids
  have hb : fourLevels.At 1 ⟨"b", "", none, [⟨"d", "", none, [⟨"e", "", none, []⟩]⟩]⟩ :=
    .child .root (by simp [fourLevels])
  have hd : fourLevels.At 2 ⟨"d", "", none, [⟨"e", "", none, []⟩]⟩ := .child hb (by simp)
  have he : fourLevels.At 3 ⟨"e", "", none, []⟩ := .child hd (by simp)
  refine ⟨hids, Nat.succ.inj hlength, (hfollow 2 _ hd 2).2 ⟨rfl, Nat.le_refl 2⟩, fun hroot => ?_⟩
  exact absurd ((hfollow 3 _ he 3).1 hroot).2 (by decide)

/-- An id that comes again below itself and below a sibling has the parent of its last node. -/
example :
    ((⟨"a", "", none, [⟨"x", "", none, [⟨"x", "", none, []⟩]⟩,
      ⟨"b", "", none, [⟨"x", "", none, []⟩]⟩]⟩ : TreeNode).render ⟨[], 2⟩).parents.find? "x"
      = some "b" := by
  decide +kernel

end TreeNode

end BranchProbe
