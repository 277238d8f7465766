/-
  Which variables have defaults.

  1. A variable has a default just if a node within the limit compares it (`mem_keys_defaults`), in
     whatever order the nodes are visited.  The value is decided by the first comparison, so it
     does depend on the order.
  2. All that is read of a tree are the conditions within the limit (`compared_eq`).  A tree that is
     cut at the limit has just these, in the same order.

  The pre-order mixes the levels: with a deeper limit new nodes come in between the old ones.  So the
  variables at one limit are compared with those at another one node by node, and not as parts of
  one list.
-/
import BranchProbe.Proofs.Defaults
import BranchProbe.Proofs.Tree.Reshaped

namespace BranchProbe.TreeNode

/-- A variable has a default just if it is compared within the limit, by a node whose condition
    has a comparison of this name.  The value plays no part here. -/
theorem mem_keys_defaults {root : TreeNode} {limit : Nat} {k : String} :
    k ∈ (root.defaults limit).value.keys
      ↔ ∃ v ∈ root.preorder, v.1 ≤ limit ∧ ∃ c ∈ comparisons v.2.condition, c.name = k := by
  rw [SortedMap.mem_keys_iff, find?_defaults, Option.isSome_map, List.find?_isSome]
  simp only [compared, within, List.mem_flatMap, List.mem_map, List.mem_filter, decide_eq_true_eq]
  constructor
  · rintro ⟨c, ⟨n, ⟨v, ⟨hv, hle⟩, rfl⟩, hc⟩, hk⟩
    exact ⟨v, hv, hle, c, hc, hk⟩
  · rintro ⟨v, hv, hle, c, hc, hk⟩
    exact ⟨c, ⟨v.2, ⟨v, ⟨hv, hle⟩, rfl⟩, hc⟩, hk⟩

/-- With children in another order the same variables are compared.  The defaults may differ,
    since another comparison can come first, but their keys are read from the set of nodes. -/
theorem Rearranged.mem_keys_defaults_iff {root other : TreeNode}
    (h : root.Rearranged content other) (limit : Nat) (k : String) :
    k ∈ (other.defaults limit).value.keys ↔ k ∈ (root.defaults limit).value.keys := by
  have hread : ∀ t : TreeNode, k ∈ (t.defaults limit).value.keys
      ↔ ∃ w ∈ t.preorder.map fun v => (v.1, v.2.content),
          w.1 ≤ limit ∧ ∃ c ∈ comparisons w.2.2.2, c.name = k := by
    intro t
    simp only [mem_keys_defaults, List.mem_map, exists_exists_and_eq_and]
    exact Iff.rfl
  rw [hread, hread]
  exact exists_congr fun w => and_congr_left fun _ => h.perm_preorder.mem_iff.symm

/-- The comparisons within the limit are those of the conditions there. -/
theorem compared_eq (root : TreeNode) (limit : Nat) :
    root.compared limit
      = ((root.preorder.filter fun v => v.1 ≤ limit).map fun v => (v.1, v.2.content)).flatMap
          fun w => comparisons w.2.2.2 := by
  rw [compared, within, List.flatMap_map, List.flatMap_map]
  rfl

/-- In a tree with at most `limit + 1` levels all conditions are within the limit, so all of their
    comparisons are used.  This is what the limit leaves of a tree that is whole. -/
theorem compared_of_depth_le {root : TreeNode} {limit : Nat} (h : root.depth ≤ limit + 1) :
    root.compared limit = root.preorder.flatMap fun v => comparisons v.2.condition := by
  rw [compared_eq, filter_preorder_of_depth_le h, List.flatMap_map]
  rfl

/-- In such a tree a variable has a default just if it is compared at all. -/
theorem mem_keys_defaults_of_depth_le {root : TreeNode} {limit : Nat} {k : String}
    (h : root.depth ≤ limit + 1) :
    k ∈ (root.defaults limit).value.keys
      ↔ ∃ v ∈ root.preorder, ∃ c ∈ comparisons v.2.condition, c.name = k := by
  rw [mem_keys_defaults]
  refine exists_congr fun v => and_congr_right fun hv => and_iff_right ?_
  have hall := List.filter_eq_self.1 (filter_preorder_of_depth_le h) v hv
  exact of_decide_eq_true hall

/-- A tree that is cut within a limit compares what the whole tree compares above the cut. -/
theorem compared_prune {m limit : Nat} (h : m ≤ limit) (root : TreeNode) :
    (root.prune m).compared limit = root.compared m := by
  have hdepth : (root.prune m).depth ≤ limit + 1 :=
    Nat.le_trans (root.depth_prune_le m) (Nat.succ_le_succ h)
  rw [compared_eq, compared_eq, filter_preorder_of_depth_le hdepth, preorder_prune]

/-- The variables that have defaults, for any tree and limit.  They are the same with the children
    of any nodes in another order, and a deeper limit only adds to them.  Limits that leave nothing
    out give the same defaults, values included; and the defaults at a limit are those of the tree
    that is cut there, of which a walk with a deeper limit leaves nothing out. -/
theorem default_variables (root : TreeNode) (m : Nat) :
    (∀ other, root.Rearranged content other →
      ∀ k, k ∈ (other.defaults m).value.keys ↔ k ∈ (root.defaults m).value.keys)
    ∧ (∀ m', m ≤ m' → (root.defaults m).value.keys ⊆ (root.defaults m').value.keys)
    ∧ (∀ m', root.depth - 1 ≤ m → root.depth - 1 ≤ m' →
      (root.defaults m).value = (root.defaults m').value)
    ∧ (∀ limit, m ≤ limit → (root.prune m).walk limit = ⟨(root.prune m).preorder, true⟩
      ∧ (root.defaults m).value = ((root.prune m).defaults limit).value) := by
  refine ⟨fun other h k => h.mem_keys_defaults_iff m k, fun m' hle k hk => ?_, fun m' hm hm' => ?_,
    fun limit hle => ⟨?_, ?_⟩⟩
  · obtain ⟨v, hv, hdepth, hc⟩ := mem_keys_defaults.1 hk
    exact mem_keys_defaults.2 ⟨v, hv, Nat.le_trans hdepth hle, hc⟩
  · have hwalk : root.walk m = root.walk m' := by
      rw [walk_eq_of_depth_le (by omega), walk_eq_of_depth_le (by omega)]
    show (root.walk m).seeds = (root.walk m').seeds
    rw [hwalk]
  · exact walk_eq_of_depth_le (Nat.le_trans (root.depth_prune_le m) (Nat.succ_le_succ hle))
  · rw [defaults_value, defaults_value, compared_prune hle]

/-- `x` is compared on the second level and, earlier in pre-order, on the third. -/
def layered : TreeNode :=
  ⟨"a", "", none, [⟨"b", "", none, [⟨"d", "", some "input.x > 1 and input.z == 0", []⟩]⟩,
    ⟨"c", "", some "input.x < 9", []⟩]⟩

/-- The same with the children of the root in the other order. -/
def mirrored : TreeNode :=
  ⟨"a", "", none, [⟨"c", "", some "input.x < 9", []⟩,
    ⟨"b", "", none, [⟨"d", "", some "input.x > 1 and input.z == 0", []⟩]⟩]⟩

/-- The third level adds `z`, and decides `x` if it comes first: in the mirrored tree the
    condition on the second level is met before it. -/
theorem layered_variables :
    layered.Rearranged content mirrored
    ∧ (∀ k, k ∈ (mirrored.defaults 2).value.keys ↔ k ∈ (layered.defaults 2).value.keys)
    ∧ (layered.defaults 1).value.keys ⊆ (layered.defaults 2).value.keys
    ∧ ((layered.defaults 1).value.find? "x" = some (.integer 8)
      ∧ (layered.defaults 2).value.find? "x" = some (.integer 2)
      ∧ (mirrored.defaults 2).value.find? "x" = some (.integer 8))
    ∧ (layered.defaults 2).value = (layered.defaults 7).value
    ∧ (layered.defaults 1).value = ((layered.prune 1).defaults 7).value := by
  have hmirrored : layered.Rearranged content mirrored :=
    .node rfl (.swap _ _ _) (.cons (.node rfl (.refl _) .nil)
      (.cons (.node rfl (.refl _) (.cons (.node rfl (.refl _) .nil) .nil)) .nil))
  obtain ⟨-, hmore, -, hcut⟩ := default_variables layered 1
  obtain ⟨horder, -, hall, -⟩ := default_variables layered 2
  refine ⟨hmirrored, horder _ hmirrored, hmore 2 (by decide), ?_, hall 7 (by decide) (by decide),
    (hcut 7 (by decide)).2⟩
  simp only [find?_defaults]
  exact ⟨rfl, rfl, rfl⟩

end BranchProbe.TreeNode
