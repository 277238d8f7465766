/-
  The text of an outline, line by line.

  1. `LineTree.indentedFrom` reads the lines of a tree off the tree itself.  The printer has a queue
     instead.  The crux is what a queue stands for (`lines_eq_flatMap`): the lines of its trees one
     tree after the other, each tree below the indentation that it was queued with.  A step puts
     the trees below the first one in its place, and those are just its remaining lines.
  2. `RenderNode.places` lists the nodes of a drawn tree in pre-order, each with its parent and with
     what decides its indentation: which of the nodes on the way down to it are last children.
     `Stands` says what it is for a node to have such a place.
  3. `print_outline` puts the two together: the text of an outline is the line of each place behind
     the indentation of the place.  If no text of a node breaks a line, these are the lines of the
     text (`outline_lines`).
-/
import BranchProbe.Proofs.Render.Builder
import BranchProbe.Proofs.Terminal.Painted
import BranchProbe.Render.Outline

namespace BranchProbe

/-! ## Printing from a queue -/

namespace LineTree

mutual

/-- The lines of a tree that is printed behind an indentation. -/
def indentedFrom (indent : String) (isLast : Bool) : LineTree → List String
  | .node line leaves =>
    (indent ++ branch isLast ++ line) :: indentedAll (indent ++ inherited isLast) leaves

/-- The lines of the trees of one level, one tree after the other. -/
def indentedAll (indent : String) : List LineTree → List String
  | [] => []
  | t :: rest => indentedFrom indent rest.isEmpty t ++ indentedAll indent rest

end

/-- The lines that a queued tree stands for. -/
def Pending.indented (p : Pending) : List String := p.tree.indentedFrom p.indent p.isLast

/-- What a pending line stands for: its own text, and the lines of what is below it with the
    indent handed down. -/
theorem Pending.indented_eq (p : Pending) :
    p.indented = p.text :: indentedAll (p.indent ++ inherited p.isLast) p.tree.leaves := by
  obtain ⟨⟨line, leaves⟩, isLast, indent⟩ := p
  rw [indented, indentedFrom]
  rfl

/-- The trees of one level stand for the lines of the level. -/
theorem flatMap_queue (indent : String) (ts : List LineTree) :
    (queue indent ts).flatMap Pending.indented = indentedAll indent ts := by
  induction ts with
  | nil => rw [queue, indentedAll, List.flatMap_nil]
  | cons t rest ih => rw [queue, indentedAll, List.flatMap_cons, ih, Pending.indented]

/-- The printer prints what the trees in its queue stand for. -/
theorem lines_eq_flatMap (q : List Pending) : lines q = q.flatMap Pending.indented := by
  fun_induction lines q with
  | case1 => rfl
  | case2 p rest ih =>
    rw [ih, List.flatMap_append, flatMap_queue, List.flatMap_cons, p.indented_eq, List.cons_append]

/-- The text of a tree: the line on top, and then the lines of the level below it. -/
theorem print_eq (t : LineTree) :
    t.print = String.join ((t.line :: indentedAll "" t.leaves).map (· ++ "\n")) := by
  rw [print, lines_eq_flatMap, flatMap_queue]

end LineTree

/-! ## Places -/

/-- A node of a drawn tree at its place. -/
structure RenderNode.Place where
  /-- for every node on the way down, from below the root to this one: is it the last child of its
      parent? -/
  lasts : List Bool
  /-- the id of the parent; the root has none -/
  parent : Option String
  node : RenderNode

/-- What stands before the line of a place: for each node above its own, the root left out, four
    blanks if that node is the last child of its parent and else a bar, and then the branch. -/
def indentation : List Bool → String
  | [] => ""
  | [isLast] => if isLast then "└── " else "├── "
  | isLast :: next :: below => (if isLast then "    " else "│   ") ++ indentation (next :: below)

theorem length_indentation : ∀ lasts : List Bool, (indentation lasts).length = 4 * lasts.length
  | [] => rfl
  | [isLast] => by cases isLast <;> rfl
  | isLast :: next :: below => by
    have hwidth : (if isLast then "    " else "│   ").length = 4 := by cases isLast <;> rfl
    have ih := length_indentation (next :: below)
    rw [indentation, String.length_append, hwidth, ih]
    simp only [List.length_cons]
    omega

/-- What the lines below some levels inherit. -/
def margin (above : List Bool) : String := String.join (above.map LineTree.inherited)

/-- The margin grows by one piece for each level, and which piece that is depends on whether the
    node is the last of its siblings. -/
theorem margin_concat (above : List Bool) (isLast : Bool) :
    margin (above ++ [isLast]) = margin above ++ LineTree.inherited isLast := by
  rw [margin, margin, List.map_append, String.join_append]
  simp

/-- The indentation is what the levels above have handed down, and the branch.  The program keeps
    the first part while it goes down and adds the branch at each line. -/
theorem indentation_concat (above : List Bool) (isLast : Bool) :
    indentation (above ++ [isLast]) = margin above ++ LineTree.branch isLast := by
  induction above with
  | nil => simp [indentation, margin, LineTree.branch]
  | cons first rest ih =>
    have hcons : indentation (first :: (rest ++ [isLast]))
        = LineTree.inherited first ++ indentation (rest ++ [isLast]) := by
      cases rest <;> rfl
    rw [List.cons_append, hcons, ih]
    simp [margin, String.append_assoc]

namespace RenderNode

mutual

/-- The places in pre-order from a node down. -/
def placesFrom (lasts : List Bool) (parent : Option String) : RenderNode → List Place
  | ⟨label, id, condition, isActive, weight, children⟩ =>
    ⟨lasts, parent, ⟨label, id, condition, isActive, weight, children⟩⟩
      :: placesAll lasts id children

/-- The places from the children of the node `parent` down. -/
def placesAll (above : List Bool) (parent : String) : List RenderNode → List Place
  | [] => []
  | n :: rest =>
    placesFrom (above ++ [rest.isEmpty]) (some parent) n ++ placesAll above parent rest

end

/-- The places of a tree, in pre-order. -/
def places (root : RenderNode) : List Place := root.placesFrom [] none

/-- The place of a node comes first, then those of its children, for which the node is the
    parent. -/
theorem placesFrom_eq (lasts : List Bool) (parent : Option String) (n : RenderNode) :
    n.placesFrom lasts parent = ⟨lasts, parent, n⟩ :: placesAll lasts n.id n.children := by
  cases n
  rw [placesFrom]

/-- The node `n` stands in the tree at this place: it is the root, or one of the children of its
    parent, and the last one just if no other follows. -/
inductive Stands (root : RenderNode) : (lasts : List Bool) → (parent : Option String) →
    (n : RenderNode) → Prop where
  | root : Stands root [] none root
  | child {lasts : List Bool} {above : Option String} {parent n : RenderNode}
      {before after : List RenderNode} (hparent : Stands root lasts above parent)
      (hn : parent.children = before ++ n :: after) :
      Stands root (lasts ++ [after.isEmpty]) (some parent.id) n

mutual

/-- The places that are listed are places of the tree: the chain of last marks is that of the
    ancestors.  The induction is on the node, with the siblings to the right in the next lemma. -/
theorem stands_placesFrom {root : RenderNode} {lasts : List Bool} {parent : Option String} :
    ∀ n : RenderNode, root.Stands lasts parent n →
      ∀ p ∈ n.placesFrom lasts parent, root.Stands p.lasts p.parent p.node
  | ⟨label, id, condition, isActive, weight, children⟩, h => by
    rw [placesFrom, List.forall_mem_cons]
    exact ⟨h, stands_placesAll h [] children rfl⟩

/-- Whether a child is the last one is seen from what follows it in the list of its siblings, so
    the lemma is about a suffix of that list. -/
theorem stands_placesAll {root : RenderNode} {above : List Bool} {parent : Option String}
    {n : RenderNode} (h : root.Stands above parent n) (before : List RenderNode) :
    ∀ rest : List RenderNode, n.children = before ++ rest →
      ∀ p ∈ placesAll above n.id rest, root.Stands p.lasts p.parent p.node
  | [], _ => by simp [placesAll]
  | c :: rest, hrest => by
    rw [placesAll, List.forall_mem_append]
    refine ⟨stands_placesFrom c (.child h hrest), ?_⟩
    exact stands_placesAll h (before ++ [c]) rest (by simpa using hrest)

end

theorem stands_of_mem_places {root : RenderNode} :
    ∀ p ∈ root.places, root.Stands p.lasts p.parent p.node :=
  stands_placesFrom root .root

mutual

/-- The places list the nodes in pre-order, with as many marks as the node has ancestors. -/
theorem map_placesFrom (lasts : List Bool) (parent : Option String) :
    ∀ n : RenderNode, ((n.placesFrom lasts parent).map fun p => (p.lasts.length, p.node))
      = n.preorderFrom lasts.length
  | ⟨label, id, condition, isActive, weight, children⟩ => by
    rw [placesFrom, preorderFrom, List.map_cons, map_placesAll lasts id children]

theorem map_placesAll (above : List Bool) (parent : String) :
    ∀ ns : List RenderNode, ((placesAll above parent ns).map fun p => (p.lasts.length, p.node))
      = preorderAll (above.length + 1) ns
  | [] => by simp [placesAll, preorderAll]
  | n :: rest => by
    rw [placesAll, preorderAll, List.map_append, map_placesFrom _ _ n, map_placesAll above parent rest,
      List.length_append, List.length_singleton]

end

/-- The places are those of the nodes in pre-order; a node has as many levels above it as its depth
    says. -/
theorem map_places (root : RenderNode) :
    (root.places.map fun p => (p.lasts.length, p.node)) = root.preorder :=
  map_placesFrom [] none root

/-- The node at a place is one of the tree. -/
theorem exists_mem_preorder {root : RenderNode} {p : Place} (hp : p ∈ root.places) :
    ∃ v ∈ root.preorder, v.2 = p.node := by
  rw [← map_places]
  exact ⟨_, List.mem_map_of_mem hp, rfl⟩

/-- None of the texts shown of a node has the character `c` in it. -/
def Lacks (c : Char) (n : RenderNode) : Prop :=
  c ∉ n.label.toList ∧ c ∉ n.id.toList ∧ c ∉ n.condition.toList

end RenderNode

/-! ## The text of an outline -/

namespace RenderModel

/-- The line of a place with all that stands before it. -/
def lineAt (m : RenderModel) (options : OutlineOptions) (p : RenderNode.Place) : String :=
  indentation p.lasts ++ m.nodeLine options p.parent p.node

/-- The outline of a node is its line above the outlines of its children. -/
theorem outlineFrom_eq (m : RenderModel) (options : OutlineOptions) (parent : Option String)
    (n : RenderNode) :
    m.outlineFrom options parent n
      = .node (m.nodeLine options parent n) (m.outlineAll options n.id n.children) := by
  cases n
  rw [outlineFrom]

/-- There are as many outlines below a node as it has children, so a node is last among its
    siblings in both. -/
theorem isEmpty_outlineAll (m : RenderModel) (options : OutlineOptions) (parent : String)
    (ns : List RenderNode) : (m.outlineAll options parent ns).isEmpty = ns.isEmpty := by
  cases ns <;> simp [outlineAll]

mutual

/-- The lines of the outline of a node are those of its places, with the margins that the marks
    of the places spell out.  The induction is on the node. -/
theorem indentedFrom_outline (m : RenderModel) (options : OutlineOptions) (above : List Bool)
    (isLast : Bool) (parent : Option String) :
    ∀ n : RenderNode, (m.outlineFrom options parent n).indentedFrom (margin above) isLast
      = (n.placesFrom (above ++ [isLast]) parent).map (m.lineAt options)
  | ⟨label, id, condition, isActive, weight, children⟩ => by
    rw [outlineFrom, LineTree.indentedFrom, RenderNode.placesFrom, List.map_cons, lineAt,
      indentation_concat, ← margin_concat, indentedAll_outline m options _ id children]

/-- The same for siblings: all but the last of them hand down a bar. -/
theorem indentedAll_outline (m : RenderModel) (options : OutlineOptions) (above : List Bool)
    (parent : String) :
    ∀ ns : List RenderNode, LineTree.indentedAll (margin above) (m.outlineAll options parent ns)
      = (RenderNode.placesAll above parent ns).map (m.lineAt options)
  | [] => by rw [outlineAll, LineTree.indentedAll, RenderNode.placesAll, List.map_nil]
  | n :: rest => by
    rw [outlineAll, LineTree.indentedAll, RenderNode.placesAll, List.map_append,
      isEmpty_outlineAll, indentedFrom_outline m options above _ (some parent) n,
      indentedAll_outline m options above parent rest]

end

/-- The text of an outline: the line of each place in pre-order, every line ended. -/
theorem print_outline (m : RenderModel) (options : OutlineOptions) :
    (m.outline options).print
      = String.join (m.root.places.map fun p => m.lineAt options p ++ "\n") := by
  have hlines : (m.outline options).line :: LineTree.indentedAll "" (m.outline options).leaves
      = m.root.places.map (m.lineAt options) := by
    have hbelow := indentedAll_outline m options [] m.root.id m.root.children
    rw [RenderNode.places, RenderNode.placesFrom_eq, List.map_cons, ← hbelow, outline,
      outlineFrom_eq]
    simp [LineTree.line, LineTree.leaves, lineAt, indentation, margin]
  rw [LineTree.print_eq, hlines, List.map_map]
  rfl

end RenderModel

/-! ## Line breaks -/

/-- A character that is in none of the glyphs is not in an indentation. -/
theorem not_mem_indentation {c : Char} (h : ∀ s ∈ ["└── ", "├── ", "    ", "│   "], c ∉ s.toList) :
    ∀ lasts : List Bool, c ∉ (indentation lasts).toList
  | [] => List.not_mem_nil
  | [true] => h "└── " (by simp)
  | [false] => h "├── " (by simp)
  | isLast :: next :: below => by
    have hglyph : c ∉ (if isLast then "    " else "│   ").toList := by
      cases isLast
      · exact h "│   " (by simp)
      · exact h "    " (by simp)
    rw [indentation, String.toList_append, List.mem_append, not_or]
    exact ⟨hglyph, not_mem_indentation h (next :: below)⟩

/-- Ended lines are found again where the text is split at its line breaks. -/
theorem splitOn_join_ended {ls : List String} (h : ∀ l ∈ ls, '\n' ∉ l.toList) :
    (String.join (ls.map (· ++ "\n"))).toList.splitOn '\n' = ls.map String.toList ++ [[]] := by
  induction ls with
  | nil => rfl
  | cons l rest ih =>
    obtain ⟨hl, hrest⟩ := List.forall_mem_cons.1 h
    have htext : (String.join ((l :: rest).map (· ++ "\n"))).toList
        = l.toList ++ '\n' :: (String.join (rest.map (· ++ "\n"))).toList := by
      simp [String.toList_join]
    have hbreak : ∀ c ∈ l.toList, (c == '\n') = false := by
      intro c hc
      exact beq_eq_false_iff_ne.2 fun heq => hl (heq ▸ hc)
    have ih := ih hrest
    rw [List.splitOn_eq_splitOnP] at ih ⊢
    rw [htext, List.splitOnP_append_cons_of_forall_mem hbreak _ (beq_self_eq_true _), ih,
      List.map_cons, List.cons_append]

namespace RenderModel

/-- The pieces of a line that do not come from a text of its node. -/
def ownTexts : List String := [activeMark, " [", "]", " if ", " (unreachable)"]

/-- A character that is in no text of a node is not in its line, unless the line has it of its own. -/
theorem not_mem_plainLine {c : Char} (hown : ∀ s ∈ ownTexts, c ∉ s.toList) (m : RenderModel)
    (options : OutlineOptions) (parent : Option String) {n : RenderNode} (hn : n.Lacks c) :
    c ∉ (m.plainLine options parent n).toList := by
  obtain ⟨hlabel, hid, hcondition⟩ := hn
  simp only [ownTexts, List.forall_mem_cons] at hown
  obtain ⟨hmark, hopen, hclose, hif, hnote, -⟩ := hown
  simp only [plainLine, String.toList_append, List.mem_append, not_or]
  refine ⟨⟨⟨⟨⟨⟨?_, hlabel⟩, hopen⟩, hid⟩, hclose⟩, ?_⟩, ?_⟩
  · split
    · exact hmark
    · exact List.not_mem_nil
  · split
    · rw [String.toList_append, List.mem_append, not_or]
      exact ⟨hif, hcondition⟩
    · exact List.not_mem_nil
  · split
    · exact hnote
    · exact List.not_mem_nil

/-- The line of a place is one line if no text of the node has a line break, in colors too. -/
theorem newline_not_mem_lineAt (m : RenderModel) (options : OutlineOptions) {p : RenderNode.Place}
    (hp : p.node.Lacks '\n') : '\n' ∉ (m.lineAt options p).toList := by
  have hplain : '\n' ∉ (m.plainLine options p.parent p.node).toList :=
    not_mem_plainLine (by decide) m options p.parent hp
  have hline : '\n' ∉ (m.nodeLine options p.parent p.node).toList := by
    rw [nodeLine]
    cases styleOf? options p.node with
    | none => exact hplain
    | some style => exact style.newline_not_mem_paint hplain
  rw [lineAt, String.toList_append, List.mem_append, not_or]
  exact ⟨not_mem_indentation (by decide) p.lasts, hline⟩

/-- The text of the outline of a model in which no label, id or condition breaks a line, for any
    options.  It has one line for each node of the tree, in pre-order.  A line is what the node
    shows, behind an indentation of four characters for each level of the node: glyphs that tell of
    the node, and of all above it but the root, whether it is the last child of its parent. -/
theorem outline_lines (m : RenderModel) (options : OutlineOptions)
    (h : ∀ v ∈ m.root.preorder, v.2.Lacks '\n') :
    (m.outline options).print.toList.splitOn '\n'
        = (m.root.places.map fun p =>
            (indentation p.lasts ++ m.nodeLine options p.parent p.node).toList) ++ [[]]
    ∧ (m.root.places.map fun p => (p.lasts.length, p.node)) = m.root.preorder
    ∧ (∀ p ∈ m.root.places, m.root.Stands p.lasts p.parent p.node
        ∧ (indentation p.lasts).length = 4 * p.lasts.length) := by
  have hlines : ∀ l ∈ m.root.places.map (m.lineAt options), '\n' ∉ l.toList := by
    intro l hl
    obtain ⟨p, hp, rfl⟩ := List.mem_map.1 hl
    obtain ⟨v, hv, hnode⟩ := RenderNode.exists_mem_preorder hp
    exact m.newline_not_mem_lineAt options (hnode ▸ h v hv)
  refine ⟨?_, RenderNode.map_places m.root, fun p hp => ?_⟩
  · have hsplit := splitOn_join_ended hlines
    rw [List.map_map, List.map_map] at hsplit
    rw [print_outline]
    exact hsplit
  · exact ⟨RenderNode.stands_of_mem_places p hp, length_indentation p.lasts⟩

/-- Two children that have children of their own, drawn for a path down to `a2`. -/
def grown : RenderModel :=
  (TreeNode.renderModel ⟨"s", "A", none,
    [⟨"a", "B", some "x", [⟨"a1", "C", none, []⟩, ⟨"a2", "", none, []⟩]⟩,
      ⟨"m", "D", none, [⟨"m1", "", none, []⟩]⟩]⟩ ["s", "a", "a2"] 2).value

/-- Six lines in color, each level four characters to the right of the one above. -/
theorem grown_lines :
    (∀ v ∈ grown.root.preorder, v.2.Lacks '\n')
    ∧ (grown.outline ⟨true, ["m1"]⟩).print.toList.splitOn '\n'
      = ["\x1b[1;32m* A [s]\x1b[0m",
          "├── \x1b[1;32m* B [a] if x\x1b[0m",
          "│   ├── C [a1]",
          "│   └── \x1b[1;32m*  [a2]\x1b[0m",
          "└── D [m]",
          "    └── \x1b[31m [m1] (unreachable)\x1b[0m",
          ""].map String.toList := by
  have hlacks : ∀ v ∈ grown.root.preorder, v.2.Lacks '\n' := by
    unfold RenderNode.Lacks
    decide
  refine ⟨hlacks, ?_⟩
  rw [(outline_lines grown ⟨true, ["m1"]⟩ hlacks).1]
  decide

end RenderModel

end BranchProbe
