/-
  What a tree answers, read off its pre-order.

  1. The recursions over a node and its children are compared with the one listing by induction on the
     tree, for a node and for a list of nodes at once: the number of nodes (`length_preorderFrom`)
     and the first node with an id (`find?_eq_preorderFrom`).
  2. The greatest depth in the listing is that of the last level (`max?_depth_preorder`), since each
     level has a node and no node lies below the last one.
  3. In a valid tree no id stands twice in the listing.  So the first node with the id of a node is
     this node, with all that is below it (`find?_id_of_mem`).
-/
import BranchProbe.Proofs.Tree.Validity

namespace BranchProbe

namespace TreeNode

/-! ## Counting -/

mutual

/-- The pre-order lists as many nodes as are counted. -/
theorem length_preorderFrom (d : Nat) : ∀ n : TreeNode, (n.preorderFrom d).length = n.count
  | ⟨id, text, condition, children⟩ => by
    rw [preorderFrom_eq, count, List.length_cons, length_preorderAll (d + 1) children, Nat.add_comm]

theorem length_preorderAll (d : Nat) :
    ∀ ns : List TreeNode, (preorderAll d ns).length = countAll ns
  | [] => by rw [preorderAll, countAll, List.length_nil]
  | n :: rest => by
    rw [preorderAll, countAll, List.length_append, length_preorderFrom d n,
      length_preorderAll d rest]

end

/-! ## Depth -/

/-- The deepest nodes of the listing lie on the last level of the tree. -/
theorem max?_depth_preorder (root : TreeNode) :
    (root.preorder.map (·.1)).max? = some (root.depth - 1) := by
  rw [List.max?_eq_some_iff]
  constructor
  · have hpos := depth_eq root
    obtain ⟨n, hn⟩ : ∃ n, root.At (root.depth - 1) n := exists_at_of_lt_depth (by omega)
    exact List.mem_map.2 ⟨(_, n), mem_preorder_iff.2 hn, rfl⟩
  · intro d hd
    obtain ⟨v, hv, rfl⟩ := List.mem_map.1 hd
    have hfits := (mem_preorder_iff.1 hv).depth_le
    have hpos := depth_eq v.2
    omega

/-! ## Finding a node -/

mutual

/-- The search for an id goes through the listing until it meets the id. -/
theorem find?_eq_preorderFrom (id : String) (d : Nat) :
    ∀ n : TreeNode, n.find? id = ((n.preorderFrom d).find? fun v => v.2.id == id).map (·.2)
  | ⟨i, text, condition, children⟩ => by
    rw [find?, preorderFrom_eq, List.find?_cons]
    by_cases hi : i = id
    · simp [hi]
    · -- the node in front has another id, so both searches go on below it
      rw [if_neg hi, beq_eq_false_iff_ne.2 hi]
      exact findIn?_eq_preorderAll id (d + 1) children

/-- The search among some nodes finds the first one in their pre-order; it goes along with the
    lemma for one node. -/
theorem findIn?_eq_preorderAll (id : String) (d : Nat) :
    ∀ ns : List TreeNode,
      findIn? id ns = ((preorderAll d ns).find? fun v => v.2.id == id).map (·.2)
  | [] => by simp [findIn?, preorderAll]
  | n :: rest => by
    rw [findIn?, preorderAll, List.find?_append, Option.map_or, ← find?_eq_preorderFrom id d n,
      ← findIn?_eq_preorderAll id d rest]

end

/-- An id is not found just if no node has it. -/
theorem find?_eq_none_iff {root : TreeNode} {id : String} :
    root.find? id = none ↔ ∀ v ∈ root.preorder, v.2.id ≠ id := by
  rw [find?_eq_preorderFrom id 0, Option.map_eq_none_iff, List.find?_eq_none]
  simp [preorder]

/-- With distinct ids, each node is found at its id.  In general the search gives the first node
    of the pre-order with the id, and here there is only one. -/
theorem find?_id_of_mem {root : TreeNode} (h : root.DistinctIds) {v : Nat × TreeNode}
    (hv : v ∈ root.preorder) : root.find? v.2.id = some v.2 := by
  rw [find?_eq_preorderFrom v.2.id 0]
  cases hfound : (root.preorderFrom 0).find? fun w => w.2.id == v.2.id with
  | none =>
    have hother := List.find?_eq_none.1 hfound v hv
    simp at hother
  | some w =>
    have hid : w.2.id = v.2.id := by simpa using List.find?_some hfound
    have hw : w ∈ root.preorder := List.mem_of_find?_eq_some hfound
    have hsame := (h.eq_of_id_eq (mem_preorder_iff.1 hw) (mem_preorder_iff.1 hv) hid).2
    exact congrArg some hsame

/-- The queries of any tree, in terms of the pre-order of its nodes with their depths, which is what a
    walk lists that leaves nothing out.  The tree has as many nodes as the listing, and one level
    more than the greatest depth in it says.  Looking for an id gives the first node of the listing
    with this id, and nothing just if none has it.  The levels from a node of the listing down fit
    into the tree.  If the check of the tree finds nothing wrong, for whatever limit, each node of the
    listing is the one that is found at its id. -/
theorem queries_of_preorder (root : TreeNode) :
    (∀ limit, root.depth ≤ limit + 1 → root.walk limit = ⟨root.preorder, true⟩)
    ∧ root.count = root.preorder.length
    ∧ (∃ deepest, (root.preorder.map (·.1)).max? = some deepest ∧ root.depth = deepest + 1)
    ∧ (∀ id, root.find? id = (root.preorder.find? fun v => v.2.id == id).map (·.2)
      ∧ (root.find? id = none ↔ ∀ v ∈ root.preorder, v.2.id ≠ id))
    ∧ (∀ v ∈ root.preorder, v.1 + v.2.depth ≤ root.depth)
    ∧ ∀ (t : DecisionTree) (limit : Nat), t.root = some root → t.validate limit = .ok () →
      ∀ v ∈ root.preorder, root.find? v.2.id = some v.2 := by
  refine ⟨fun limit hdepth => walk_eq_of_depth_le hdepth, (length_preorderFrom 0 root).symm,
    ⟨root.depth - 1, root.max?_depth_preorder, ?_⟩,
    fun id => ⟨find?_eq_preorderFrom id 0 root, find?_eq_none_iff⟩,
    fun v hv => (mem_preorder_iff.1 hv).depth_le, ?_⟩
  · have hpos := depth_eq root
    omega
  · intro t limit hroot hvalid v hv
    obtain ⟨root', hroot', -, hids⟩ := DecisionTree.validate_eq_ok_iff.1 hvalid
    obtain rfl : root = root' := Option.some.inj (hroot.symm.trans hroot')
    exact find?_id_of_mem hids hv

/-- Three levels, with the deepest node below the first child. -/
def adultOrMinor : TreeNode :=
  ⟨"a", "Start", none, [⟨"b", "Adult", some "input.age >= 18", [⟨"d", "Approve", none, []⟩]⟩,
    ⟨"c", "Minor", none, []⟩]⟩

/-- The tree is valid at limit two; the node `b` is found with what is below it. -/
theorem adultOrMinor_queries :
    DecisionTree.validate ⟨some adultOrMinor, []⟩ 2 = .ok ()
    ∧ adultOrMinor.find? "b"
      = some ⟨"b", "Adult", some "input.age >= 18", [⟨"d", "Approve", none, []⟩]⟩
    ∧ adultOrMinor.count = 4 ∧ adultOrMinor.depth = 3 := by
  have hvalid : DecisionTree.validate ⟨some adultOrMinor, []⟩ 2 = .ok () := rfl
  obtain ⟨-, hcount, ⟨deepest, hdeepest, hdepth⟩, -, -, hfind⟩ := queries_of_preorder adultOrMinor
  obtain rfl : 2 = deepest := Option.some.inj hdeepest
  refine ⟨hvalid, ?_, hcount, hdepth⟩
  exact hfind ⟨some adultOrMinor, []⟩ 2 rfl hvalid
    (1, ⟨"b", "Adult", some "input.age >= 18", [⟨"d", "Approve", none, []⟩]⟩)
    (by simp [preorder, adultOrMinor, preorderFrom, preorderAll])

end TreeNode

end BranchProbe
