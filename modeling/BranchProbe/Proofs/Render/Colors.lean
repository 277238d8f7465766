/-
  Colors add control sequences to an outline, and nothing else.

  1. The line of a node in color is the line without colors, or that one painted (`nodeLine_cases`).
     If no text of the node has an escape character, the line without colors has none either.
  2. The crux is that a line in color is whole, and so is what stands before it and after it
     (`pieces_lineAt`).  So a terminal reads a printed outline line by line, and no sequence that a line
     opens reaches into the next one.
-/
import BranchProbe.Proofs.Render.Lines

namespace BranchProbe

namespace RenderModel

open Terminal

/-- A line in a style: the line without colors between the sequence that opens the style and the
    reset, which are its only sequences. -/
structure Wears (style : Style) (plain colored : String) : Prop where
  text : colored.toList = style.opening ++ plain.toList ++ Style.reset
  sequences : sequences colored = [style.opening, Style.reset]

/-- A plain text that is painted wears the style: one sequence before it, one reset behind it. -/
theorem wears_paint (style : Style) {plain : String} (h : '\x1b' ∉ plain.toList) :
    Wears style plain (style.paint plain) where
  text := style.toList_paint h
  sequences := style.sequences_paint h

section Lines

variable (m : RenderModel) (unreachable : List String) (parent : Option String) {n : RenderNode}

theorem escape_not_mem_nodeLine (hn : n.Lacks '\x1b') :
    '\x1b' ∉ (m.nodeLine ⟨false, unreachable⟩ parent n).toList :=
  not_mem_plainLine (by decide) m ⟨false, unreachable⟩ parent hn

/-- With colors the line of a node that has a style is its plain line, painted. -/
theorem nodeLine_of_style {style : Style} (h : styleOf? ⟨true, unreachable⟩ n = some style) :
    m.nodeLine ⟨true, unreachable⟩ parent n
      = style.paint (m.nodeLine ⟨false, unreachable⟩ parent n) := by
  rw [nodeLine, h]
  rfl

/-- The line of a node without a style is the plain one. -/
theorem nodeLine_of_no_style (h : styleOf? ⟨true, unreachable⟩ n = none) :
    m.nodeLine ⟨true, unreachable⟩ parent n = m.nodeLine ⟨false, unreachable⟩ parent n := by
  rw [nodeLine, h]
  rfl

/-- The line of a node in color: painted green and bold, painted red, or as without colors. -/
theorem nodeLine_cases (n : RenderNode) :
    (n.isActive = true ∧ m.nodeLine ⟨true, unreachable⟩ parent n
        = Style.paint ⟨.green, true⟩ (m.nodeLine ⟨false, unreachable⟩ parent n))
    ∨ (n.isActive = false ∧ n.id ∈ unreachable ∧ m.nodeLine ⟨true, unreachable⟩ parent n
        = Style.paint ⟨.red, false⟩ (m.nodeLine ⟨false, unreachable⟩ parent n))
    ∨ (n.isActive = false ∧ n.id ∉ unreachable
        ∧ m.nodeLine ⟨true, unreachable⟩ parent n = m.nodeLine ⟨false, unreachable⟩ parent n) := by
  cases hactive : n.isActive with
  | true =>
    have hgreen : styleOf? ⟨true, unreachable⟩ n = some ⟨.green, true⟩ := by simp [styleOf?, hactive]
    exact .inl ⟨rfl, m.nodeLine_of_style unreachable parent hgreen⟩
  | false =>
    by_cases hid : n.id ∈ unreachable
    · have hred : styleOf? ⟨true, unreachable⟩ n = some ⟨.red, false⟩ := by
        simp [styleOf?, hactive, hid]
      exact .inr (.inl ⟨rfl, hid, m.nodeLine_of_style unreachable parent hred⟩)
    · have hbare : styleOf? ⟨true, unreachable⟩ n = none := by simp [styleOf?, hactive, hid]
      exact .inr (.inr ⟨rfl, hid, m.nodeLine_of_no_style unreachable parent hbare⟩)

/-- The line of a node in color is whole, and shows the line without colors. -/
theorem whole_nodeLine (hn : n.Lacks '\x1b') :
    Whole (m.nodeLine ⟨true, unreachable⟩ parent n).toList
    ∧ stripped (m.nodeLine ⟨true, unreachable⟩ parent n)
      = m.nodeLine ⟨false, unreachable⟩ parent n := by
  have hplain := m.escape_not_mem_nodeLine unreachable parent hn
  rcases m.nodeLine_cases unreachable parent n with ⟨-, hline⟩ | ⟨-, -, hline⟩ | ⟨-, -, hline⟩
  · rw [hline]
    exact ⟨Style.whole_paint _ hplain, Style.stripped_paint _ hplain⟩
  · rw [hline]
    exact ⟨Style.whole_paint _ hplain, Style.stripped_paint _ hplain⟩
  · rw [hline]
    exact ⟨whole_of_not_mem hplain, stripped_of_not_mem hplain⟩

/-- What comes before a line and after it is shown and has no sequence in it.  So the pieces of
    the whole outline are those of its lines with plain text between them. -/
theorem pieces_lineAt {p : RenderNode.Place} (hp : p.node.Lacks '\x1b') :
    Whole (m.lineAt ⟨true, unreachable⟩ p ++ "\n").toList
    ∧ pieces (m.lineAt ⟨true, unreachable⟩ p ++ "\n").toList
      = (indentation p.lasts).toList.map .shown
        ++ pieces (m.nodeLine ⟨true, unreachable⟩ p.parent p.node).toList ++ [.shown '\n'] := by
  have hindent : '\x1b' ∉ (indentation p.lasts).toList := not_mem_indentation (by decide) p.lasts
  have hend : '\x1b' ∉ ['\n'] := by decide
  have hline := (m.whole_nodeLine unreachable p.parent hp).1
  have htext : (m.lineAt ⟨true, unreachable⟩ p ++ "\n").toList
      = (indentation p.lasts).toList
        ++ (m.nodeLine ⟨true, unreachable⟩ p.parent p.node).toList ++ ['\n'] := by
    simp [lineAt]
  rw [htext]
  constructor
  · exact ((whole_of_not_mem hindent).append hline).append (whole_of_not_mem hend)
  · rw [List.append_assoc, pieces_append_of_not_mem hindent, hline, pieces_of_not_mem hend,
      List.append_assoc]
    rfl

/-- Without its sequences, an ended line in color is the ended line without colors. -/
theorem char?_lineAt {p : RenderNode.Place} (hp : p.node.Lacks '\x1b') :
    (pieces (m.lineAt ⟨true, unreachable⟩ p ++ "\n").toList).filterMap Piece.char?
      = (m.lineAt ⟨false, unreachable⟩ p ++ "\n").toList := by
  have hline := congrArg String.toList (m.whole_nodeLine unreachable p.parent hp).2
  rw [stripped, String.toList_ofList] at hline
  have hend : [Piece.shown '\n'].filterMap Piece.char? = "\n".toList := rfl
  rw [(m.pieces_lineAt unreachable hp).2, List.filterMap_append, List.filterMap_append,
    filterMap_char?_shown, hline, hend, lineAt, String.toList_append, String.toList_append]

/-- The sequences of an ended line are those of the node's line. -/
theorem sequence?_lineAt {p : RenderNode.Place} (hp : p.node.Lacks '\x1b') :
    (pieces (m.lineAt ⟨true, unreachable⟩ p ++ "\n").toList).filterMap Piece.sequence?
      = sequences (m.nodeLine ⟨true, unreachable⟩ p.parent p.node) := by
  have hend : [Piece.shown '\n'].filterMap Piece.sequence? = [] := rfl
  rw [(m.pieces_lineAt unreachable hp).2, List.filterMap_append, List.filterMap_append,
    filterMap_sequence?_shown, hend, List.nil_append, List.append_nil, sequences]

end Lines

/-- The outline of a model in which no label, id or condition has an escape character, for any ids of
    nodes that were not reached.  In color it shows what it shows without.  Its sequences are those
    of its lines, and those of a line are none, or the one that opens a style and the reset: lines of
    active nodes are green, other ones of nodes that were not reached are red, and the rest is as
    without colors. -/
theorem colored_outline (m : RenderModel) (unreachable : List String)
    (h : ∀ v ∈ m.root.preorder, v.2.Lacks '\x1b') :
    stripped (m.outline ⟨true, unreachable⟩).print = (m.outline ⟨false, unreachable⟩).print
    ∧ (∀ options, (m.outline options).print = String.join (m.root.places.map fun p =>
        indentation p.lasts ++ m.nodeLine options p.parent p.node ++ "\n"))
    ∧ sequences (m.outline ⟨true, unreachable⟩).print
      = (m.root.places.flatMap fun p =>
          sequences (m.nodeLine ⟨true, unreachable⟩ p.parent p.node))
    ∧ ∀ p ∈ m.root.places,
      let plain := m.nodeLine ⟨false, unreachable⟩ p.parent p.node
      let colored := m.nodeLine ⟨true, unreachable⟩ p.parent p.node
      sequences plain = []
      ∧ (p.node.isActive = true → Wears ⟨.green, true⟩ plain colored)
      ∧ (p.node.isActive = false → p.node.id ∈ unreachable → Wears ⟨.red, false⟩ plain colored)
      ∧ (p.node.isActive = false → p.node.id ∉ unreachable → colored = plain)
      ∧ (sequences colored ≠ [] ↔ p.node.isActive = true ∨ p.node.id ∈ unreachable) := by
  have hlacks : ∀ p ∈ m.root.places, p.node.Lacks '\x1b' := by
    intro p hp
    obtain ⟨v, hv, hnode⟩ := RenderNode.exists_mem_preorder hp
    exact hnode ▸ h v hv
  -- lines are whole, so the outline is read line by line
  have hpieces : pieces (m.outline ⟨true, unreachable⟩).print.toList
      = m.root.places.flatMap fun p => pieces (m.lineAt ⟨true, unreachable⟩ p ++ "\n").toList := by
    rw [print_outline, pieces_join, List.flatMap_map]
    intro s hs
    obtain ⟨p, hp, rfl⟩ := List.mem_map.1 hs
    exact (m.pieces_lineAt unreachable (hlacks p hp)).1
  refine ⟨?_, fun options => m.print_outline options, ?_, fun p hp => ?_⟩
  · rw [← String.toList_inj, stripped, String.toList_ofList, hpieces, List.filterMap_flatMap,
      print_outline, String.toList_join, List.flatMap_map]
    exact List.flatMap_congr fun p hp => m.char?_lineAt unreachable (hlacks p hp)
  · rw [sequences, hpieces, List.filterMap_flatMap]
    exact List.flatMap_congr fun p hp => m.sequence?_lineAt unreachable (hlacks p hp)
  · have hplain := m.escape_not_mem_nodeLine unreachable p.parent (hlacks p hp)
    refine ⟨sequences_of_not_mem hplain, ?_⟩
    rcases m.nodeLine_cases unreachable p.parent p.node with
      ⟨hactive, hline⟩ | ⟨hactive, hid, hline⟩ | ⟨hactive, hid, hline⟩
    · have hwears := wears_paint ⟨.green, true⟩ hplain
      rw [← hline] at hwears
      simp [hactive, hwears, hwears.sequences]
    · have hwears := wears_paint ⟨.red, false⟩ hplain
      rw [← hline] at hwears
      simp [hactive, hid, hwears, hwears.sequences]
    · simp [hactive, hid, hline, sequences_of_not_mem hplain]

/-- Four lines have colors.  The node `a` was not reached and is active, and its line is green. -/
theorem grown_colors :
    (∀ v ∈ grown.root.preorder, v.2.Lacks '\x1b')
    ∧ stripped (grown.outline ⟨true, ["a", "m1"]⟩).print
      = (grown.outline ⟨false, ["a", "m1"]⟩).print
    ∧ ((grown.root.places.filter fun p =>
        sequences (grown.nodeLine ⟨true, ["a", "m1"]⟩ p.parent p.node) ≠ []).map fun p => p.node.id)
      = ["s", "a", "a2", "m1"]
    ∧ ∃ p ∈ grown.root.places, p.node.id = "a"
      ∧ Wears ⟨.green, true⟩ (grown.nodeLine ⟨false, ["a", "m1"]⟩ p.parent p.node)
        (grown.nodeLine ⟨true, ["a", "m1"]⟩ p.parent p.node) := by
  have hlacks : ∀ v ∈ grown.root.preorder, v.2.Lacks '\x1b' := by
    unfold RenderNode.Lacks
    decide
  obtain ⟨hstripped, -, -, hlines⟩ := colored_outline grown ["a", "m1"] hlacks
  have hcolored : ∀ p ∈ grown.root.places,
      decide (sequences (grown.nodeLine ⟨true, ["a", "m1"]⟩ p.parent p.node) ≠ [])
        = decide (p.node.isActive = true ∨ p.node.id ∈ ["a", "m1"]) := by
    intro p hp
    obtain ⟨-, -, -, -, hiff⟩ := hlines p hp
    exact decide_eq_decide.2 hiff
  obtain ⟨p, hp, hid, hactive⟩ :
      ∃ p ∈ grown.root.places, p.node.id = "a" ∧ p.node.isActive = true := by decide
  obtain ⟨-, hgreen, -⟩ := hlines p hp
  refine ⟨hlacks, hstripped, ?_, p, hp, hid, hgreen hactive⟩
  rw [List.filter_congr hcolored]
  decide

end RenderModel

end BranchProbe
