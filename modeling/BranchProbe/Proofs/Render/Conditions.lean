/-
  The conditions that an outline shows.

  1. `RenderModel.lineShowing` is the line of a node with some condition, or without any.  A line
     tells which of them it is (`lineShowing_injective`), in colors too, since a painted text tells
     the text.
  2. A drawn node has a text in place of its condition in any case, and `noCondition` if the node
     that it stands for has none.  The crux is what is read back from that text
     (`Shows.readCondition`): the condition, unless it is that very text.
  3. The places of the drawn tree follow the pre-order of the tree (`forall₂_places`).  So the
     outline tells all conditions just if none of the nodes drawn has `noCondition` for one.
-/
import BranchProbe.Proofs.Render.Lines

namespace BranchProbe

/-! ## Lines with and without a condition -/

namespace RenderModel

/-- What a line says of a condition. -/
def conditionPart : Option String → String
  | none => ""
  | some condition => " if " ++ condition

/-- A text in the colors of a node. -/
def dressed (options : OutlineOptions) (n : RenderNode) (text : String) : String :=
  match styleOf? options n with
  | none => text
  | some style => style.paint text

/-- The line of a node with this condition, or without one. -/
def lineShowing (m : RenderModel) (options : OutlineOptions) (parent : Option String)
    (n : RenderNode) (condition : Option String) : String :=
  dressed options n ((if m.isMarked parent n then activeMark else "")
    ++ n.label ++ " [" ++ n.id ++ "]" ++ conditionPart condition
    ++ (if options.unreachable.contains n.id then " (unreachable)" else ""))

/-- The part of a line that shows a condition determines the condition. -/
theorem conditionPart_injective : Function.Injective conditionPart := by
  intro condition condition' h
  have hchars := congrArg String.toList h
  cases condition <;> cases condition' <;> simp_all [conditionPart]

/-- So does the line with its style and marks put around it: they depend on the node and not on
    the condition. -/
theorem dressed_injective (options : OutlineOptions) (n : RenderNode) :
    Function.Injective (dressed options n) := by
  intro text text' h
  cases hstyle : styleOf? options n with
  | none => simpa only [dressed, hstyle] using h
  | some style =>
    simp only [dressed, hstyle] at h
    exact style.paint_injective h

theorem lineShowing_injective (m : RenderModel) (options : OutlineOptions)
    (parent : Option String) (n : RenderNode) :
    Function.Injective (m.lineShowing options parent n) := by
  intro condition condition' h
  have hline := (String.append_left_inj _).1 (dressed_injective options n h)
  exact conditionPart_injective ((String.append_right_inj _).1 hline)

end RenderModel

/-! ## Reading a condition back -/

namespace RenderNode

/-- The condition that a drawn node is taken to have. -/
def readCondition (r : RenderNode) : Option String :=
  if r.hasCondition then some r.condition else none

/-- A line shows a condition just if the program takes the node to have one. -/
theorem isSome_readCondition (r : RenderNode) : r.readCondition.isSome = r.hasCondition := by
  cases h : r.hasCondition <;> simp [readCondition, h]

/-- A node that has `noCondition` for a condition is taken to have none. -/
theorem Shows.readCondition {active : List String} {n : TreeNode} {r : RenderNode}
    (h : Shows active n r) : r.readCondition = n.condition.filter (· ≠ noCondition) := by
  rw [RenderNode.readCondition, hasCondition, h.condition]
  cases n.condition with
  | none => simp
  | some c => by_cases hc : c = noCondition <;> simp [hc, Option.filter]

/-- The program takes a node to have a condition just if it has one that is not the text used for
    a missing one.  This is where the two cases are mixed up. -/
theorem Shows.hasCondition_iff {active : List String} {n : TreeNode} {r : RenderNode}
    (h : Shows active n r) :
    r.hasCondition = true ↔ ∃ c, n.condition = some c ∧ c ≠ noCondition := by
  rw [← isSome_readCondition, h.readCondition, Option.isSome_iff_exists]
  simp [Option.filter_eq_some_iff]

end RenderNode

namespace RenderModel

/-- The line of a node is the one that shows the condition read off the node. -/
theorem nodeLine_eq_lineShowing (m : RenderModel) (options : OutlineOptions)
    (parent : Option String) (n : RenderNode) :
    m.nodeLine options parent n = m.lineShowing options parent n n.readCondition := by
  have hpart : (if n.hasCondition then " if " ++ n.condition else "")
      = conditionPart n.readCondition := by
    cases h : n.hasCondition <;> simp [RenderNode.readCondition, conditionPart, h]
  rw [nodeLine, plainLine, hpart]
  rfl

/-- The line of a node shows what is read back from its text. -/
theorem nodeLine_shows_iff (m : RenderModel) (options : OutlineOptions) (parent : Option String)
    (n : RenderNode) (condition : Option String) :
    m.nodeLine options parent n = m.lineShowing options parent n condition
      ↔ n.readCondition = condition := by
  rw [nodeLine_eq_lineShowing]
  exact (m.lineShowing_injective options parent n).eq_iff

/-- The node at a place, and its line, tell that this is the condition. -/
def Tells (m : RenderModel) (options : OutlineOptions) (condition : Option String)
    (p : RenderNode.Place) : Prop :=
  p.node.hasCondition = condition.isSome
    ∧ m.nodeLine options p.parent p.node = m.lineShowing options p.parent p.node condition

theorem tells_iff (m : RenderModel) (options : OutlineOptions) (condition : Option String)
    (p : RenderNode.Place) : m.Tells options condition p ↔ p.node.readCondition = condition := by
  rw [Tells, nodeLine_shows_iff, ← RenderNode.isSome_readCondition]
  exact and_iff_right_of_imp (congrArg Option.isSome)

/-- The condition of a node is told, unless it is `noCondition`. -/
theorem tells_condition_iff (m : RenderModel) (options : OutlineOptions) {active : List String}
    {n : TreeNode} {p : RenderNode.Place} (h : RenderNode.Shows active n p.node) :
    m.Tells options n.condition p ↔ n.condition ≠ some RenderNode.noCondition := by
  rw [tells_iff, h.readCondition]
  cases n.condition <;> simp [Option.filter]

end RenderModel

/-! ## The conditions of a tree -/

namespace TreeNode

/-- The places of the drawn tree follow the pre-order of the tree down to the limit. -/
theorem forall₂_places (rules : BuildRules) (n : TreeNode) :
    List.Forall₂ (fun v p => v.1 = p.lasts.length ∧ RenderNode.Shows rules.active v.2 p.node)
      (n.preorder.filter fun v => v.1 ≤ rules.limit) (n.render rules).root.places := by
  have hdrawn := forall₂_shows rules n
  rw [walk_visited, ← RenderNode.map_places, List.forall₂_map_right_iff] at hdrawn
  exact hdrawn

end TreeNode

/-- Where two lists correspond, what holds of a pair just for some left sides holds of all pairs just
    if it does for all of the left list. -/
theorem forall₂_iff_forall_left {α β : Type} {P Q : α → β → Prop} {R : α → Prop}
    (hiff : ∀ a b, P a b → (Q a b ↔ R a)) {as : List α} {bs : List β}
    (h : List.Forall₂ P as bs) : List.Forall₂ Q as bs ↔ ∀ a ∈ as, R a := by
  induction h with
  | nil => simp
  | cons hab _ ih => rw [List.forall₂_cons, List.forall_mem_cons, hiff _ _ hab, ih]

/-- The conditions that the outline of a tree shows, for any path, limit and options.  The outline
    has one line for each node down to the limit, in pre-order.  A drawn node has a condition, and
    its line shows one, just if the node of the tree has a condition other than `noCondition`, and
    the one shown is that one.  So all conditions are told just if no node down to the limit has
    `noCondition` for one: such a node is drawn like one without a condition. -/
theorem DecisionTree.outline_conditions (t : DecisionTree) (path : List String) (limit : Nat)
    (options : OutlineOptions) :
    (t.root = none → (t.renderModel path limit).value = none)
    ∧ ∀ root, t.root = some root → ∃ model, (t.renderModel path limit).value = some model
      ∧ (model.outline options).print = String.join (model.root.places.map fun p =>
          indentation p.lasts ++ model.nodeLine options p.parent p.node ++ "\n")
      ∧ List.Forall₂ (fun v p =>
          let line := model.nodeLine options p.parent p.node
          let lineShowing := model.lineShowing options p.parent p.node
          v.1 = p.lasts.length ∧ RenderNode.Shows path v.2 p.node
          ∧ (p.node.hasCondition = true
              ↔ ∃ c, v.2.condition = some c ∧ c ≠ RenderNode.noCondition)
          ∧ (∀ c, line = lineShowing (some c)
              ↔ v.2.condition = some c ∧ c ≠ RenderNode.noCondition)
          ∧ (line = lineShowing none
              ↔ v.2.condition = none ∨ v.2.condition = some RenderNode.noCondition))
          (root.preorder.filter fun v => v.1 ≤ limit) model.root.places
      ∧ (List.Forall₂ (fun v p => model.Tells options v.2.condition p)
            (root.preorder.filter fun v => v.1 ≤ limit) model.root.places
          ↔ ∀ v ∈ root.preorder, v.1 ≤ limit → v.2.condition ≠ some RenderNode.noCondition) := by
  refine ⟨renderModel_eq_none path limit, ?_⟩
  intro root hroot
  have hplaces := root.forall₂_places ⟨path, limit⟩
  refine ⟨_, renderModel_eq_some path limit hroot, RenderModel.print_outline _ options,
    hplaces.imp ?_, ?_⟩
  · rintro v p ⟨hdepth, hshows⟩
    refine ⟨hdepth, hshows, hshows.hasCondition_iff, fun c => ?_, ?_⟩
    · rw [RenderModel.nodeLine_shows_iff, hshows.readCondition]
      simp [Option.filter_eq_some_iff]
    · rw [RenderModel.nodeLine_shows_iff, hshows.readCondition]
      cases v.2.condition <;> simp [Option.filter]
  -- a line tells its condition or it does not, and this is known of each node by itself
  · have hpair : ∀ (v : Nat × TreeNode) (p : RenderNode.Place),
        v.1 = p.lasts.length ∧ RenderNode.Shows path v.2 p.node →
          ((root.renderModel path limit).value.Tells options v.2.condition p
            ↔ v.2.condition ≠ some RenderNode.noCondition) :=
      fun v p hv => RenderModel.tells_condition_iff _ options hv.2
    refine (forall₂_iff_forall_left hpair hplaces).trans ?_
    simp only [List.mem_filter, decide_eq_true_eq, and_imp]

/-- One node, with `noCondition` for a condition. -/
def DecisionTree.unspoken : DecisionTree := ⟨some ⟨"a", "A", some "No condition", []⟩, []⟩

/-- Its line has no condition, and its condition is not told, although it has one: the text is
    that with which the program says that there is none. -/
theorem DecisionTree.unspoken_outline :
    ∃ root model, unspoken.root = some root ∧ root.condition = some "No condition"
      ∧ (unspoken.renderModel [] 0).value = some model
      ∧ (model.outline ⟨false, []⟩).print = "A [a]\n"
      ∧ model.root.hasCondition = false
      ∧ ¬ List.Forall₂ (fun v p => model.Tells ⟨false, []⟩ v.2.condition p)
          (root.preorder.filter fun v => v.1 ≤ 0) model.root.places := by
  obtain ⟨model, hmodel, hprint, -, htold⟩ :=
    (unspoken.outline_conditions [] 0 ⟨false, []⟩).2 _ rfl
  refine ⟨_, model, rfl, rfl, hmodel, ?_, ?_, fun h => ?_⟩
  · rw [hprint]
    obtain rfl := Option.some.inj hmodel
    decide
  · obtain rfl := Option.some.inj hmodel
    decide
  · exact htold.1 h (0, _) List.mem_cons_self (Nat.le_refl 0) rfl

end BranchProbe
