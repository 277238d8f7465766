/-
  Exported results are loaded again, as far as there is room.

  1. A written node needs two levels of room for each level of the tree (`nesting_toJson`), since it
     always has its list of children; a node that is read may do without the innermost list.  So the
     room that was enough for reading is enough for writing but for one level (`depth_of_decode`).
  2. For the final node that level is there.  Visited nodes start one level further in, at an odd
     room, and a visited node of 63 levels is written with one level too many.
  3. `reload_after_export` decides all cases: the export is loaded again, as the same result, just
     if no visited node has more than 62 levels; it is refused otherwise.
-/
import BranchProbe.Proofs.Document.Export
import BranchProbe.Proofs.Json.TooDeep
import BranchProbe.Proofs.Tree.Limits

namespace BranchProbe

open Json (Syntax Reads Overflows Fills Represents Whole textValue optional listOf record
  reads_record reads_field reads_textValue overflows_field room_of_list room_of_object whole_text
  whole_list whole_object)

/-! ## The room of a written node -/

namespace TreeNode

mutual

/-- A written node needs room for an object and a list on each of its levels. -/
theorem nesting_toJson : ∀ n : TreeNode, n.toJson.nesting = 2 * n.depth
  | ⟨id, text, condition, children⟩ => by
    have hchildren := nestingIn_allToJson children
    have hcondition : (Json.ofText? condition).nesting = 0 := by cases condition <;> rfl
    rw [toJson, depth, Json.nesting]
    simp only [Json.nestingInMembers, Json.nesting, hcondition, hchildren]
    omega

/-- The nodes of a list need as much room as the deepest of them. -/
theorem nestingIn_allToJson : ∀ ns : List TreeNode,
    Json.nestingIn (allToJson ns) = 2 * deepest ns
  | [] => rfl
  | n :: rest => by
    rw [allToJson, Json.nestingIn, nesting_toJson n, nestingIn_allToJson rest, deepest]
    omega

end

/-- The levels of a node that is read, from an object or from a list: there is room for them but for
    the last list. -/
theorem depth_of_decode {room : Nat} : ∀ {s : Syntax} {n : TreeNode},
    decode room s = .ok n → 2 * n.depth ≤ room + 1 := by
  induction room using Nat.strong_induction_on with
  | _ room ih =>
    intro s n h
    have hpos := decode_pos h
    rw [decode_eq hpos] at h
    -- a child is read two levels further in, inside the list
    have hchildren : ∀ c ∈ n.children, 2 * c.depth ≤ room - 1 := by
      refine Json.record_preserves (P := fun n => ∀ c ∈ n.children, 2 * c.depth ≤ room - 1)
        (by simp [blank]) ?_ h
      simp only [fields, List.forall_mem_cons, List.not_mem_nil, false_imp_iff, implies_true,
        and_true]
      refine ⟨?_, ?_, ?_, ?_⟩
      all_goals
        intro u n₁ n₂ hn₁ hput
        obtain ⟨x, hx, rfl⟩ := Json.map_eq_ok_iff.1 hput
      · exact hn₁
      · exact hn₁
      · exact hn₁
      · intro c hc
        obtain ⟨item, hread⟩ := Json.exists_read_of_listOf hx c hc
        have hinside := decode_pos hread
        have hdepth := ih (room - 2) (by omega) hread
        omega
    obtain ⟨id, text, condition, children⟩ := n
    have hle : deepest children ≤ (room - 1) / 2 := by
      refine deepest_le_iff.2 fun c hc => ?_
      have hdepth := hchildren c hc
      omega
    rw [depth]
    omega

/-- A written node for which there is too little room is refused.  The induction is on the room:
    either there is none for the node itself, or one of its children is refused, and all before
    it are read. -/
theorem overflows_decode {room : Nat} : ∀ {n : TreeNode}, room < n.toJson.nesting →
    Overflows (decode room) n.toJson := by
  induction room using Nat.strong_induction_on with
  | _ room ih =>
    rintro ⟨id, text, condition, children⟩ h
    rw [nesting_toJson, depth] at h
    rw [toJson]
    rcases Nat.eq_zero_or_pos room with rfl | hpos
    · exact Json.overflows_record_zero _ _ _
    have hchildren : Overflows (listOf (room - 1) (decode (room - 2)))
        (.list (allToJson children)) := by
      by_cases hroom : room = 1
      · subst hroom
        exact Json.overflows_listOf_zero _
      rw [allToJson_eq_map]
      refine Json.overflows_listOf _ (fun c _ => ?_) ?_
      · rcases Nat.lt_or_ge (room - 2) c.toJson.nesting with hover | hfits
        · exact .inr (ih (room - 2) (by omega) hover)
        · exact .inl (reads_decode _ c hfits)
      · -- if all children fitted, the node would fit
        by_contra hnone
        push Not at hnone
        have hle : deepest children ≤ (room - 2) / 2 := by
          refine deepest_le_iff.2 fun c hc => ?_
          by_contra hdepth
          refine hnone c hc (ih (room - 2) (by omega) ?_)
          rw [nesting_toJson]
          omega
        omega
    -- the first three members are read, and the children have no room
    have hfills : Fills (fields (listOf (room - 1) (decode (room - 2)))) [] blank
        [("node_id", .text id), ("text", .text text), ("condition", .ofText? condition)]
        ⟨id, text, condition, []⟩ :=
      .cons _ rfl (by simp) (reads_field (reads_textValue id) _ _ _ _)
        (.cons _ rfl (by simp) (reads_field (reads_textValue text) _ _ _ _)
          (.cons _ rfl (by simp) (reads_field (reads_ofText? condition) _ _ _ _) .nil))
    intro s hs
    rw [decode_eq hpos]
    exact hfills.overflows_record rfl (by simp) (overflows_field hchildren _ _ _ _) room "TreeNode"
      s hs

end TreeNode

/-! ## The room of a written result -/

namespace Simulation

/-- No visited node has more than 62 levels. -/
def Shallow (x : Simulation) : Prop := ∀ ns, x.visited = some ns → ∀ n ∈ ns, n.depth ≤ 62

theorem nesting_ofTexts (l : List String) : (Json.ofTexts l).nesting ≤ 1 := by
  refine Json.nesting_list_le_iff.2 fun j hj => ?_
  obtain ⟨s, -, rfl⟩ := List.mem_map.1 hj
  exact Nat.le_refl _

/-- There is room for a result that was read, if its visited nodes are shallow: the final node fits
    in any case. -/
theorem nesting_toJson_of_decode {s : Syntax} {x : Simulation} (hs : s.Faultless)
    (h : decode Json.depthLimit s = .ok x) (hshallow : x.Shallow) :
    x.toJson.nesting ≤ Json.depthLimit := by
  have hfinal : 2 * x.final.depth ≤ 127 := by
    have hgiven := (given_of_decode hs h).final
    cases hu : s.given? Form.result.names "final_node" with
    | none => cases (hgiven.default hu).2
    | some u => exact TreeNode.depth_of_decode (hgiven.value u hu)
  refine Json.nesting_object_le_iff.2 fun e he => ?_
  simp only [List.mem_append, List.mem_singleton, mem_optionalMember] at he
  rcases he with (rfl | ⟨j, hj, rfl⟩) | rfl
  · exact Nat.le_trans (nesting_ofTexts x.path) (by decide)
  · obtain ⟨ns, hns, rfl⟩ := Option.map_eq_some_iff.1 hj
    have hdeepest : TreeNode.deepest ns ≤ 62 := TreeNode.deepest_le_iff.2 (hshallow ns hns)
    rw [Json.nesting, TreeNode.nestingIn_allToJson]
    omega
  · rw [TreeNode.nesting_toJson]
    omega

/-- There is no room for visited nodes of more than 62 levels.  They lie in a list in the record,
    one level further in than the final node, and this one level makes the difference. -/
theorem overflows_decode {x : Simulation} (h : ¬ x.Shallow) :
    Overflows (decode Json.depthLimit) x.toJson := by
  obtain ⟨path, visited, final⟩ := x
  obtain ⟨ns, rfl, n, hn, hdepth⟩ :
      ∃ ns, visited = some ns ∧ ∃ n ∈ ns, 62 < n.depth := by
    simpa [Shallow] using h
  have hover : Overflows (listOf 126 (TreeNode.decode 125)) (.list (TreeNode.allToJson ns)) := by
    rw [TreeNode.allToJson_eq_map]
    refine Json.overflows_listOf _ (fun c _ => ?_) ⟨n, hn, TreeNode.overflows_decode ?_⟩
    · rcases Nat.lt_or_ge 125 c.toJson.nesting with hover | hfits
      · exact .inr (TreeNode.overflows_decode hover)
      · exact .inl (TreeNode.reads_decode _ c hfits)
    · rw [TreeNode.nesting_toJson]
      omega
  have hpath := reads_ofTexts (Nat.succ_pos 125) path
  have hmembers : toJson ⟨path, some ns, final⟩ = .object ([("path", .ofTexts path)]
      ++ ("visited_nodes", .list (TreeNode.allToJson ns)) :: [("final_node", final.toJson)]) := rfl
  rw [hmembers]
  exact Fills.overflows_record (.cons _ rfl (by simp) (reads_field hpath _ _ _ _) .nil) rfl
    (by simp) (overflows_field (Json.overflows_optional hover (by simp)) _ _ _ _) 127
    "SimulationResult"

/-! ## Loading an export -/

/-- What is exported from a loaded result is loaded again, as the same result and with the same text
    when it is exported once more, if no visited node has more than 62 levels.  Otherwise the export
    is written too, but it is nested too deep to be loaded. -/
theorem reload_after_export {m after : MemoryStore} {source : Path} {x : Simulation}
    (hload : (load source).run m = (.ok x, after)) (target : Path) :
    ∃ saved, (x.exportTo target).run after = (.ok (), saved)
      ∧ (x.Shallow → (load target).run saved = (.ok x, saved)
        ∧ ∀ target', ∃ again, (x.exportTo target').run saved = (.ok (), again)
          ∧ again.content? target' = saved.content? target)
      ∧ (¬ x.Shallow → ∃ mark, (load target).run saved = (.error (.invalidDocument
          "simulation result" (target.text ++ ": " ++ Json.Fault.message ⟨.tooDeep, mark⟩)),
          saved)) := by
  obtain ⟨-, text, -, hdecode⟩ := loadDocument_ok_iff.1 hload
  obtain ⟨s, -, hfaultless, hs⟩ :=
    Json.exists_scan_of_decode (careful_decode Json.depthLimit) hdecode
  have hcontent := MemoryStore.content?_write after target x.toJson.pretty
  refine ⟨after.write target x.toJson.pretty, MemoryStore.exportTo_run after x target,
    fun hshallow => ⟨?_, fun target' => ?_⟩, fun hdeep => ?_⟩
  -- with 62 levels at most there is room for the lists that the export adds
  · have hfits := nesting_toJson_of_decode hfaultless hs hshallow
    exact MemoryStore.load_run hcontent
      (Json.decode_write Json.indented_blank x.whole_toJson (reads_decode hfits))
  · refine ⟨_, MemoryStore.exportTo_run _ x target', ?_⟩
    rw [MemoryStore.content?_write, hcontent]
  -- the list that the export adds to a deepest node is beyond the limit
  · obtain ⟨mark, hmark⟩ := Json.decode_write_overflows Json.indented_blank x.whole_toJson
      (overflows_decode hdeep)
    refine ⟨mark, ?_⟩
    have hread : FileStore.read (after.write target x.toJson.pretty) target
        = .ok x.toJson.pretty := by simp [FileStore.read, hcontent]
    have hmark' : Json.decode decode x.toJson.pretty = .error ⟨.tooDeep, mark⟩ := hmark
    simp [load, loadDocument, FileTask.run, hread, hmark']

end Simulation

/-! ## A result at the limit -/

namespace TreeNode

/-- A node with some levels of single nodes below it. -/
def chain : Nat → TreeNode
  | 0 => ⟨"a", "", none, []⟩
  | k + 1 => ⟨"a", "", none, [chain k]⟩

/-- A document of the chain; the innermost node is given without its children. -/
def chainDocument : Nat → Json
  | 0 => .object [("node_id", .text "a"), ("text", .text "")]
  | k + 1 =>
    .object [("node_id", .text "a"), ("text", .text ""), ("children", .list [chainDocument k])]

theorem depth_chain (k : Nat) : (chain k).depth = k + 1 := by
  induction k with
  | zero => rfl
  | succ k ih => simp [chain, depth, deepest, ih, Nat.add_comm]

/-- The document of a chain has texts only, so it is written without floats. -/
theorem whole_chainDocument (k : Nat) : (chainDocument k).Everywhere Whole := by
  induction k with
  | zero => simp [chainDocument, Json.Everywhere, Json.EverywhereInMembers, Whole]
  | succ k ih =>
    simp [chainDocument, Json.Everywhere, Json.EverywhereIn, Json.EverywhereInMembers, Whole, ih]

/-- The document needs a level of room less than the chain as it is written. -/
theorem reads_chainDocument (k : Nat) {room : Nat} (h : 2 * k + 1 ≤ room) :
    Reads (decode room) (chainDocument k) (chain k) := by
  induction k generalizing room with
  | zero =>
    intro s hs
    rw [decode_eq h]
    refine reads_record h ?_ (by simp [fields, Json.field]) s hs
    exact .cons _ rfl (by simp) (reads_field (reads_textValue "a") _ _ _ _)
      (.cons _ rfl (by simp) (reads_field (reads_textValue "") _ _ _ _) .nil)
  | succ k ih =>
    have hroom : 0 < room := by omega
    have hinside : 0 < room - 1 := by omega
    have hchild : Reads (decode (room - 2)) (chainDocument k) (chain k) := ih (by omega)
    have hchildren := Json.reads_listOf hinside [chain k] (fun _ => chainDocument k)
      (by simpa using hchild)
    intro s hs
    rw [decode_eq hroom]
    refine reads_record hroom ?_ (by simp [fields, Json.field]) s hs
    exact .cons _ rfl (by simp) (reads_field (reads_textValue "a") _ _ _ _)
      (.cons _ rfl (by simp) (reads_field (reads_textValue "") _ _ _ _)
        (.cons _ rfl (by simp) (reads_field hchildren _ _ _ _) .nil))

end TreeNode

namespace Simulation

/-- A result with a visited node of 63 levels. -/
def deep : Simulation := ⟨[], some [.chain 62], .chain 0⟩

/-- A document of it that is nested 127 deep. -/
def deepDocument : Json :=
  .object [("path", .list []), ("visited_nodes", .list [TreeNode.chainDocument 62]),
    ("final_node", TreeNode.chainDocument 0)]

theorem decode_deepDocument :
    Json.decode decode deepDocument.print = .ok deep := by
  have hchain := TreeNode.whole_chainDocument
  refine Json.decode_write Json.compact_blank ?_ ?_
  · simp [deepDocument, Json.Everywhere, Json.EverywhereIn, Json.EverywhereInMembers, Whole,
      hchain]
  have hvisited := Json.reads_listOf (Nat.succ_pos 125) [TreeNode.chain 62]
    (fun _ => TreeNode.chainDocument 62)
    (by simpa using TreeNode.reads_chainDocument 62 (Nat.le_refl 125))
  have hfinal : Reads (TreeNode.decode 126) (TreeNode.chainDocument 0) (.chain 0) :=
    TreeNode.reads_chainDocument 0 (by decide)
  refine reads_record (Nat.succ_pos _) ?_ (by simp [Json.field])
  exact .cons _ rfl (by simp) (reads_field (reads_ofTexts (Nat.succ_pos 125) []) _ _ _ _)
    (.cons _ rfl (by simp) (reads_field (Json.reads_optional hvisited (by simp)) _ _ _ _)
      (.cons _ rfl (by simp) (reads_field hfinal _ _ _ _) .nil))

/-- A store with this document. -/
def deepStore : MemoryStore := MemoryStore.empty.write ⟨"in.json"⟩ deepDocument.print

/-- The document is loaded, but not its export: the innermost node gets its empty list of
    children, and this list is one level too many. -/
theorem deep_not_reloaded : (load ⟨"in.json"⟩).run deepStore = (.ok deep, deepStore)
    ∧ ∃ saved mark, (deep.exportTo ⟨"out.json"⟩).run deepStore = (.ok (), saved)
      ∧ (load ⟨"out.json"⟩).run saved = (.error (.invalidDocument "simulation result"
        ("out.json" ++ ": " ++ Json.Fault.message ⟨.tooDeep, mark⟩)), saved) := by
  have hload : (load ⟨"in.json"⟩).run deepStore = (.ok deep, deepStore) :=
    MemoryStore.load_run (MemoryStore.content?_write _ _ _) decode_deepDocument
  have hdeep : ¬ deep.Shallow := by
    intro h
    have hdepth := h _ rfl (.chain 62) List.mem_cons_self
    rw [TreeNode.depth_chain] at hdepth
    exact absurd hdepth (by decide)
  obtain ⟨saved, hexport, -, hrefused⟩ := reload_after_export hload ⟨"out.json"⟩
  obtain ⟨mark, hmark⟩ := hrefused hdeep
  exact ⟨hload, saved, mark, hexport, hmark⟩

end Simulation

end BranchProbe
