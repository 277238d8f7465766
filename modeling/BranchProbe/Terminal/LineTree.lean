/-
  Trees of lines.

  1. `LineTree` is a line with trees of lines below it.
  2. Every line but the first is indented: for each level above its own a bar, or blanks where
     nothing follows on that level, and then a branch to the line itself.
  3. `LineTree.print` keeps the trees still to be printed in a queue.  Each one carries the
     indentation that it inherited and whether it is the last on its level.
-/

namespace BranchProbe

/-- A line, and what is below it. -/
inductive LineTree where
  | node (line : String) (leaves : List LineTree)
  deriving Repr, Inhabited

namespace LineTree

/-- The line on top. -/
def line : LineTree → String
  | .node line _ => line

/-- The trees below the line on top. -/
def leaves : LineTree → List LineTree
  | .node _ leaves => leaves

mutual

/-- The number of lines. -/
def count : LineTree → Nat
  | .node _ leaves => 1 + countAll leaves

/-- The number of lines in some trees. -/
def countAll : List LineTree → Nat
  | [] => 0
  | t :: rest => t.count + countAll rest

end

/-- The branch to a line. -/
def branch (isLast : Bool) : String := if isLast then "└── " else "├── "

/-- What the lines below a line inherit. -/
def inherited (isLast : Bool) : String := if isLast then "    " else "│   "

/-- A tree that is still to be printed. -/
structure Pending where
  tree : LineTree
  isLast : Bool
  /-- the inherited indentation -/
  indent : String

/-- The trees of one level as they are queued. -/
def queue (indent : String) : List LineTree → List Pending
  | [] => []
  | t :: rest => ⟨t, rest.isEmpty, indent⟩ :: queue indent rest

/-- The number of lines in the trees of a queue. -/
def remaining (queue : List Pending) : Nat := countAll (queue.map Pending.tree)

theorem tree_queue (indent : String) (l : List LineTree) :
    (queue indent l).map Pending.tree = l := by
  induction l with
  | nil => rfl
  | cons t rest ih => rw [queue, List.map_cons, ih]

theorem countAll_append (l l' : List LineTree) :
    countAll (l ++ l') = countAll l + countAll l' := by
  induction l with
  | nil => rw [List.nil_append, countAll, Nat.zero_add]
  | cons t rest ih => rw [List.cons_append, countAll, countAll, ih, Nat.add_assoc]

/-- A tree of lines has one line and those below it. -/
theorem count_eq (t : LineTree) : t.count = 1 + countAll t.leaves := by
  cases t
  rfl

/-- The text of a line. -/
def Pending.text (p : Pending) : String := p.indent ++ branch p.isLast ++ p.tree.line

/-- The lines of the trees in a queue. -/
def lines : List Pending → List String
  | [] => []
  | p :: rest => p.text :: lines (queue (p.indent ++ inherited p.isLast) p.tree.leaves ++ rest)
  termination_by queue => remaining queue
  decreasing_by
    rw [remaining, remaining, List.map_append, tree_queue, countAll_append, List.map_cons,
      countAll, count_eq]
    omega

/-- The text of a tree, every line ended. -/
def print (t : LineTree) : String :=
  String.join ((t.line :: lines (queue "" t.leaves)).map (· ++ "\n"))

end LineTree

end BranchProbe
