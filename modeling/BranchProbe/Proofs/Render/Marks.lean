/-
  The marks of an outline tell the path.

  1. A line is the mark or nothing, then what is shown of the node (`RenderModel.shown`), in the
     colors of the node.  With the mark and without it a line reads differently
     (`lineWith_injective`), so a line tells whether it carries the mark.
  2. `drawn_lines`: the pre-order of the outline follows the pre-order of the drawn tree.  The
     crux is the step to a child: the mark of its line comes from asking the links for its parent
     and itself, in either direction, and with distinct ids that is an edge within the limit whose
     child is on the path after the first position (`isActiveLink_edge_iff`).
  3. A node below the root has another id than the root.  So if the path starts at the root, or is
     empty, being on the path after the first position is being on the path, which is what makes a
     node active (`onPath_iff_mem`).
-/
import BranchProbe.Proofs.Render.Links
import BranchProbe.Proofs.Terminal.Painted
import BranchProbe.Render.Outline

namespace BranchProbe

/-! ## The pre-order of an outline -/

namespace LineTree

mutual

/-- All lines with their depth, in pre-order; the line on top is at `depth`. -/
def preorderFrom (depth : Nat) : LineTree → List (Nat × String)
  | .node line leaves => (depth, line) :: preorderAll (depth + 1) leaves

/-- The lines of some trees one after the other. -/
def preorderAll (depth : Nat) : List LineTree → List (Nat × String)
  | [] => []
  | t :: rest => preorderFrom depth t ++ preorderAll depth rest

end

/-- All lines with their depth, in pre-order. -/
def preorder (t : LineTree) : List (Nat × String) := t.preorderFrom 0

end LineTree

/-! ## Lines with and without the mark -/

namespace RenderModel

/-- What the line of a node shows after the mark. -/
def shown (options : OutlineOptions) (n : RenderNode) : String :=
  n.label ++ " [" ++ n.id ++ "]"
    ++ (if n.hasCondition then " if " ++ n.condition else "")
    ++ (if options.unreachable.contains n.id then " (unreachable)" else "")

/-- What a node shows, with the mark or without it. -/
def withMark (marked : Bool) (text : String) : String := (if marked then activeMark else "") ++ text

/-- The line of a node with the mark or without it, in the colors of the node. -/
def lineWith (options : OutlineOptions) (n : RenderNode) (marked : Bool) : String :=
  match styleOf? options n with
  | none => withMark marked (shown options n)
  | some style => style.paint (withMark marked (shown options n))

/-- The line of a node carries the mark. -/
def Marked (options : OutlineOptions) (n : RenderNode) (line : String) : Prop :=
  line = lineWith options n true

/-- The style of a node on the path. -/
def activeStyle : Style := ⟨.green, true⟩

/-- The line of a node, marked or not, is in the colors of the path. -/
def Highlighted (options : OutlineOptions) (n : RenderNode) (line : String) : Prop :=
  ∃ marked, line = activeStyle.paint (withMark marked (shown options n))

/-- The line of a node is decided by the node and by whether the link to it is marked. -/
theorem nodeLine_eq (m : RenderModel) (options : OutlineOptions) (parent : Option String)
    (n : RenderNode) :
    m.nodeLine options parent n = lineWith options n (m.isMarked parent n) := by
  have hplain : m.plainLine options parent n
      = withMark (m.isMarked parent n) (shown options n) := by
    simp only [plainLine, withMark, shown, String.append_assoc]
  cases hstyle : styleOf? options n <;> simp only [nodeLine, hplain, lineWith, hstyle]

/-- The characters of a painted text; the mark has no reset in it. -/
theorem toList_paint_withMark (style : Style) (marked : Bool) (text : String) :
    (style.paint (withMark marked text)).toList
      = style.opening ++ ((if marked then ['*', ' '] else [])
          ++ (Style.reopen style.opening text.toList ++ Style.reset)) := by
  cases marked <;> simp [Style.paint, withMark, activeMark, Style.reopen]

/-- The mark makes a line longer, in colors too.  So lines with and without it are never the
    same, whatever the node is called. -/
theorem length_lineWith (options : OutlineOptions) (n : RenderNode) :
    (lineWith options n true).toList.length = (lineWith options n false).toList.length + 2 := by
  cases hstyle : styleOf? options n with
  | none => simp [lineWith, hstyle, withMark, activeMark]
  | some style =>
    simp only [lineWith, hstyle, toList_paint_withMark, List.length_append]
    simp only [if_true, Bool.false_eq_true, if_false, List.length_cons, List.length_nil]
    omega

theorem lineWith_injective (options : OutlineOptions) (n : RenderNode) {marked marked' : Bool}
    (h : lineWith options n marked = lineWith options n marked') : marked = marked' := by
  have hlonger := length_lineWith options n
  cases marked <;> cases marked' <;> simp_all

/-- A line is marked just if it was written for a marked node: the mark is the one part that
    differs. -/
theorem marked_lineWith (options : OutlineOptions) (n : RenderNode) (marked : Bool) :
    Marked options n (lineWith options n marked) ↔ marked = true :=
  ⟨lineWith_injective options n, fun h => congrArg (lineWith options n) h⟩

/-- Where colors are used, the nodes of the path have theirs to themselves: an unreachable node
    has another one, and any other node has none. -/
theorem highlighted_lineWith {options : OutlineOptions} (hcolor : options.color = true)
    (n : RenderNode) (marked : Bool) :
    Highlighted options n (lineWith options n marked) ↔ n.isActive = true := by
  constructor
  · rintro ⟨marked', h⟩
    by_contra hactive
    have hchars := congrArg String.toList h
    rw [toList_paint_withMark, lineWith] at hchars
    cases hred : options.unreachable.contains n.id with
    | true =>
      -- both lines are painted, and the numbers of their colors differ
      have hstyle : styleOf? options n = some ⟨.red, false⟩ := by simp_all [styleOf?]
      rw [hstyle] at hchars
      simp [toList_paint_withMark, Style.opening, activeStyle, Color.code] at hchars
    | false =>
      -- a line without colors is shorter by the sequence that opens the style, mark or not
      have hstyle : styleOf? options n = none := by simp_all [styleOf?]
      rw [hstyle] at hchars
      have hlength := congrArg List.length hchars
      have hreopen := Style.length_le_reopen activeStyle.opening (shown options n).toList
      have hopening : activeStyle.opening.length = 7 := by decide
      have hmark : (if marked then activeMark else "").toList.length ≤ 2 := by
        cases marked <;> decide
      simp only [withMark, String.toList_append, List.length_append] at hlength
      omega
  · intro hactive
    exact ⟨marked, by simp [lineWith, styleOf?, hcolor, hactive, activeStyle]⟩

end RenderModel

/-! ## The lines of a drawn tree -/

/-- The place of an id on a path that makes the line at a depth marked: anywhere for the root, after
    the first position for the nodes below. -/
def OnPath (path : List String) (depth : Nat) (id : String) : Prop :=
  (depth = 0 ∧ id ∈ path) ∨ (0 < depth ∧ id ∈ path.drop 1)

namespace TreeNode

/-- A drawn node and its line: both stand for one node of the tree, and the line has the mark just
    if the node is on the path. -/
def LineFor (root : TreeNode) (path : List String) (options : OutlineOptions)
    (r : Nat × RenderNode) (l : Nat × String) : Prop :=
  r.1 = l.1 ∧ (∃ n, root.At r.1 n ∧ RenderNode.Shows path n r.2)
    ∧ ∃ marked, l.2 = RenderModel.lineWith options r.2 marked
      ∧ (marked = true ↔ OnPath path r.1 r.2.id)

/-- A node is drawn with its own text, id and condition. -/
theorem shows_drawFrom (rules : BuildRules) (d : Nat) (n : TreeNode) :
    RenderNode.Shows rules.active n (n.drawFrom rules d) := by
  rw [drawFrom_unfold]
  exact ⟨rfl, rfl, rfl, rfl, by simp⟩

section Lines

variable {root : TreeNode} (path : List String) (limit : Nat) (options : OutlineOptions)

mutual

/-- Node by node the lines are those that the path asks for.  The induction is on the tree; what
    is handed down is whether the node itself is on the path. -/
theorem lines_drawFrom (h : root.DistinctIds) (m : RenderModel)
    (hm : m = (root.renderModel path limit).value) {d : Nat} (hd : d ≤ limit)
    (parent : Option String) :
    ∀ n : TreeNode, root.At d n →
      (m.isMarked parent (n.drawFrom ⟨path, limit⟩ d) = true ↔ OnPath path d n.id) →
      List.Forall₂ (LineFor root path options) ((n.drawFrom ⟨path, limit⟩ d).preorderFrom d)
        ((m.outlineFrom options parent (n.drawFrom ⟨path, limit⟩ d)).preorderFrom d)
  | ⟨id, text, condition, children⟩, hat, hmarked => by
    have hshows := shows_drawFrom ⟨path, limit⟩ d ⟨id, text, condition, children⟩
    rw [drawFrom] at hshows hmarked ⊢
    rw [RenderNode.preorderFrom, RenderModel.outlineFrom, LineTree.preorderFrom]
    refine .cons ⟨rfl, ⟨_, hat, hshows⟩, _, m.nodeLine_eq options parent _, hmarked⟩ ?_
    rcases Nat.lt_or_eq_of_le hd with hlt | rfl
    · rw [if_neg (Nat.not_le.2 hlt)]
      exact lines_drawAll h m hm hat hlt children fun c hc => hc
    · rw [if_pos (Nat.le_refl _)]
      exact .nil

/-- The same for the children of a node: a child is on the path just if its parent is and the
    path goes on with it. -/
theorem lines_drawAll (h : root.DistinctIds) (m : RenderModel)
    (hm : m = (root.renderModel path limit).value) {d : Nat} {parent : TreeNode}
    (hparent : root.At d parent) (hd : d + 1 ≤ limit) :
    ∀ ns : List TreeNode, (∀ c ∈ ns, c ∈ parent.children) →
      List.Forall₂ (LineFor root path options)
        (RenderNode.preorderAll (d + 1) (drawAll ⟨path, limit⟩ (d + 1) ns))
        (LineTree.preorderAll (d + 1)
          (m.outlineAll options parent.id (drawAll ⟨path, limit⟩ (d + 1) ns)))
  | [], _ => by
    rw [drawAll, RenderModel.outlineAll, RenderNode.preorderAll, LineTree.preorderAll]
    exact .nil
  | c :: rest, hns => by
    rw [drawAll, RenderModel.outlineAll, RenderNode.preorderAll, LineTree.preorderAll]
    have hc := hns c List.mem_cons_self
    have hmarked : m.isMarked (some parent.id) (c.drawFrom ⟨path, limit⟩ (d + 1)) = true
        ↔ OnPath path (d + 1) c.id := by
      rw [RenderModel.isMarked, (shows_drawFrom ⟨path, limit⟩ (d + 1) c).id, hm,
        isActiveLink_edge_iff h path limit ⟨d, hparent, hc, hd⟩]
      simp [OnPath]
    exact List.rel_append
      (lines_drawFrom h m hm hd (some parent.id) c (.child hparent hc) hmarked)
      (lines_drawAll h m hm hparent hd rest fun c' hc' => hns c' (List.mem_cons_of_mem _ hc'))

end

/-- The lines of the outline follow the drawn nodes, each with the mark just if its node is on the
    path. -/
theorem drawn_lines (h : root.DistinctIds) :
    let model := (root.renderModel path limit).value
    List.Forall₂ (LineFor root path options) model.root.preorder
      (model.outline options).preorder := by
  intro model
  have hroot : model.root = root.drawFrom ⟨path, limit⟩ 0 := by
    have := render_eq ⟨path, limit⟩ root
    exact congrArg RenderTree.root this
  rw [RenderModel.outline, hroot, RenderNode.preorder, LineTree.preorder]
  refine lines_drawFrom path limit options h model rfl (Nat.zero_le _) none root .root ?_
  rw [RenderModel.isMarked, (shows_drawFrom ⟨path, limit⟩ 0 root).isActive]
  simp [OnPath]

end Lines

/-- On a path from the root a node is where its line is marked just if it is there at all. -/
theorem onPath_iff_mem {root : TreeNode} (h : root.DistinctIds) {path : List String}
    (hpath : path = [] ∨ path.head? = some root.id) {d : Nat} {n : TreeNode}
    (hn : root.At d n) : OnPath path d n.id ↔ n.id ∈ path := by
  rcases hpath with rfl | hhead
  · simp [OnPath]
  · obtain ⟨rest, rfl⟩ : ∃ rest, path = root.id :: rest := List.head?_eq_some_iff.1 hhead
    rcases Nat.eq_zero_or_pos d with rfl | hpos
    · simp [OnPath]
    · have hne : n.id ≠ root.id := by
        intro hid
        exact absurd (h.eq_of_id_eq hn .root hid).1 (Nat.ne_of_gt hpos)
      simp [OnPath, hpos, Nat.ne_of_gt hpos, hne]

end TreeNode

/-- The outline of a tree with distinct ids, for any path and limit.  Its lines are those of the
    drawn nodes, in pre-order and with their depths.  The line of the root is marked just if its id
    is on the path, any other line just if the id is on the path after the first position; a line
    without mark differs by the mark alone.  If the path is empty or starts at the root, the marked
    lines are those of the active nodes, which are the ones in the colors of the path. -/
theorem outline_marks_path (t : DecisionTree) (h : t.DistinctIds) (path : List String)
    (limit : Nat) (options : OutlineOptions) :
    (t.root = none → (t.renderModel path limit).value = none)
    ∧ ∀ root, t.root = some root → ∃ model, (t.renderModel path limit).value = some model
      ∧ List.Forall₂ (fun v r => v.1 = r.1 ∧ RenderNode.Shows path v.2 r.2)
          (root.preorder.filter fun v => v.1 ≤ limit) model.root.preorder
      ∧ List.Forall₂ (fun r l => r.1 = l.1
          ∧ (RenderModel.Marked options r.2 l.2
            ↔ (r.1 = 0 ∧ r.2.id ∈ path) ∨ (0 < r.1 ∧ r.2.id ∈ path.drop 1))
          ∧ (¬ RenderModel.Marked options r.2 l.2
            → l.2 = RenderModel.lineWith options r.2 false)
          ∧ (options.color = true
            → (RenderModel.Highlighted options r.2 l.2 ↔ r.2.isActive = true)))
          model.root.preorder (model.outline options).preorder
      ∧ (path = [] ∨ path.head? = some root.id →
          List.Forall₂ (fun r l => RenderModel.Marked options r.2 l.2 ↔ r.2.isActive = true)
            model.root.preorder (model.outline options).preorder) := by
  refine ⟨DecisionTree.renderModel_eq_none path limit, ?_⟩
  intro root hroot
  have hids := h root hroot
  have hlines := TreeNode.drawn_lines path limit options hids
  refine ⟨_, DecisionTree.renderModel_eq_some path limit hroot, ?_, hlines.imp ?_,
    fun hpath => hlines.imp ?_⟩
  · rw [← TreeNode.walk_visited]
    exact TreeNode.forall₂_shows ⟨path, limit⟩ root
  · rintro ⟨d, r⟩ ⟨_, l⟩ ⟨rfl, -, marked, rfl, hmarked⟩
    refine ⟨rfl, (RenderModel.marked_lineWith options r marked).trans hmarked, fun hnot => ?_,
      fun hcolor => RenderModel.highlighted_lineWith hcolor r marked⟩
    rw [RenderModel.marked_lineWith, Bool.not_eq_true] at hnot
    rw [hnot]
  -- on a path from the root the position of an id does not matter
  · rintro ⟨d, r⟩ ⟨_, l⟩ ⟨rfl, ⟨n, hn, hshows⟩, marked, rfl, hmarked⟩
    rw [RenderModel.marked_lineWith, hmarked, hshows.id, TreeNode.onPath_iff_mem hids hpath hn,
      hshows.isActive]

/-- Down to the second child of the fork, with nothing below it drawn.  Just the two lines on the
    path are marked, and the unreachable sibling says so. -/
theorem fork_marks :
    DecisionTree.fork.DistinctIds
      ∧ ∃ model, (DecisionTree.fork.renderModel ["a", "c"] 1).value = some model
        ∧ (model.outline ⟨false, ["b"]⟩).preorder
          = [(0, "*  [a]"), (1, " [b] (unreachable)"), (1, "*  [c]")]
        ∧ List.Forall₂ (fun r l => RenderModel.Marked ⟨false, ["b"]⟩ r.2 l.2 ↔ r.2.isActive = true)
          model.root.preorder (model.outline ⟨false, ["b"]⟩).preorder := by
  have hids : DecisionTree.fork.DistinctIds := by
    rintro root ⟨⟩
    simp [TreeNode.DistinctIds, TreeNode.preorder, TreeNode.preorderFrom, TreeNode.preorderAll]
  obtain ⟨model, hmodel, -, -, hmarks⟩ :=
    (outline_marks_path DecisionTree.fork hids ["a", "c"] 1 ⟨false, ["b"]⟩).2 _ rfl
  refine ⟨hids, model, hmodel, ?_, hmarks (.inr rfl)⟩
  obtain rfl := Option.some.inj hmodel
  decide

end BranchProbe
