/-
  When a derived value satisfies the comparison that decided it.

  1. `Operator.Compares` is the meaning of the operators on a total order, `Comparison.Satisfied` what
     it is for a value to satisfy a comparison with a whole number or a text.
  2. `satisfied_seed_integer` and `satisfied_seed_text` go through the operators.  The spelling decides
     on which side of the literal the value lies (`Known.above_iff`, `Known.below_iff`): `<=` and `>=`
     are moved as `<` and `>` are, and `!=` stays at the literal.
  3. `defaults_satisfy_iff` is the law for the variables of a tree.

  The crux is at the ends of the range.  A whole literal is not negative, so a step down never meets
  the lower end, and a step up meets the upper one at the greatest number alone.
-/
import BranchProbe.Proofs.Defaults
import Mathlib.Data.String.Basic

namespace BranchProbe

/-- Has the operator a meaning of its own? -/
def Operator.Known (op : Operator) : Prop := ∀ spelling, op ≠ .unrecognized spelling

/-- Of the known operators two point above the literal. -/
theorem Operator.Known.above_iff {op : Operator} (h : op.Known) :
    '>' ∈ op.spelling.toList ↔ op = .greater ∨ op = .atLeast := by
  cases op with
  | less | atMost | greater | atLeast | equal | unequal => simp [spelling]
  | unrecognized s => exact absurd rfl (h s)

/-- Of the known operators two point below the literal. -/
theorem Operator.Known.below_iff {op : Operator} (h : op.Known) :
    '<' ∈ op.spelling.toList ↔ op = .less ∨ op = .atMost := by
  cases op with
  | less | atMost | greater | atLeast | equal | unequal => simp [spelling]
  | unrecognized s => exact absurd rfl (h s)

/-- What an operator says of two values; one without a meaning of its own says nothing. -/
def Operator.Compares {α : Type} [LinearOrder α] (op : Operator) (x y : α) : Prop :=
  match op with
  | .less => x < y
  | .atMost => x ≤ y
  | .greater => y < x
  | .atLeast => y ≤ x
  | .equal => x = y
  | .unequal => x ≠ y
  | .unrecognized _ => False

namespace Comparison

/-- The value satisfies the comparison, both with a whole number or both with a text, where texts
    stand in a given order. -/
def Satisfied (texts : LinearOrder String) (c : Comparison) (v : InputValue) : Prop :=
  match c.literal, v with
  | .integer n, .integer m => c.operator.Compares m.toInt n.toInt
  | .text s, .text t => c.operator.Compares t s
  | _, _ => False

/-- The comparisons that the value derived from them satisfies. -/
def Attained (c : Comparison) : Prop :=
  c.operator = .atMost ∨ c.operator = .atLeast ∨ c.operator = .equal
  ∨ (c.operator = .less ∧ ∃ n, c.literal = .integer n)
  ∨ (c.operator = .greater ∧ ∃ n, c.literal = .integer n ∧ n.toInt < Int64.maxValue.toInt)

/-- For whole numbers a comparison is that of the numbers without bounds. -/
theorem satisfied_integer (texts : LinearOrder String) {c : Comparison} {n : Int64}
    (hc : c.literal = .integer n) (m : Int64) :
    c.Satisfied texts (.integer m) ↔ c.operator.Compares m.toInt n.toInt := by
  unfold Satisfied
  rw [hc]

/-- For texts it is that of whichever order the texts have. -/
theorem satisfied_text (texts : LinearOrder String) {c : Comparison} {s : String}
    (hc : c.literal = .text s) (t : String) :
    c.Satisfied texts (.text t) ↔ c.operator.Compares t s := by
  unfold Satisfied
  rw [hc]

/-- Next to a whole literal all comparisons are satisfied but `!=`, and `>` at the upper end. -/
theorem satisfied_seed_integer (texts : LinearOrder String) {c : Comparison} {n : Int64}
    (hc : c.literal = .integer n) (hn : 0 ≤ n.toInt) (hop : c.operator.Known) :
    c.Satisfied texts c.seed ↔ c.Attained := by
  obtain ⟨v, hseed, hv⟩ := seed_integer hc hn
  have hle := Int64.toInt_le n
  simp only [hop.above_iff, hop.below_iff] at hv
  rw [hseed, satisfied_integer texts hc, Attained, hc]
  cases hoperator : c.operator with
  | less =>
    have hv : v.toInt = n.toInt - 1 := by simpa [hoperator] using hv
    have hbelow : v.toInt < n.toInt := by omega
    exact iff_of_true hbelow (by simp)
  | atMost =>
    have hv : v.toInt = n.toInt - 1 := by simpa [hoperator] using hv
    have hbelow : v.toInt ≤ n.toInt := by omega
    exact iff_of_true hbelow (by simp)
  | greater =>
    -- at the greatest number the step up is lost
    have hv : v.toInt = min (n.toInt + 1) Int64.maxValue.toInt := by simpa [hoperator] using hv
    have habove : n.toInt < v.toInt ↔ n.toInt < Int64.maxValue.toInt := by omega
    exact habove.trans (by simp)
  | atLeast =>
    have hv : v.toInt = min (n.toInt + 1) Int64.maxValue.toInt := by simpa [hoperator] using hv
    have habove : n.toInt ≤ v.toInt := by omega
    exact iff_of_true habove (by simp)
  | equal =>
    have hv : v.toInt = n.toInt := by simpa [hoperator] using hv
    exact iff_of_true hv (by simp)
  | unequal =>
    have hv : v.toInt = n.toInt := by simpa [hoperator] using hv
    exact iff_of_false (fun hne => hne hv) (by simp)
  | unrecognized spelling => exact absurd hoperator (hop spelling)

/-- At a text the comparisons that allow equality are satisfied, since a text is its own seed; a
    strict one or an inequality is not. -/
theorem satisfied_seed_text (texts : LinearOrder String) {c : Comparison} {s : String}
    (hc : c.literal = .text s) (hop : c.operator.Known) :
    c.Satisfied texts c.seed ↔ c.Attained := by
  rw [seed_text hc, satisfied_text texts hc, Attained, hc]
  cases hoperator : c.operator with
  | less | atMost | greater | atLeast | equal | unequal => simp [Operator.Compares]
  | unrecognized spelling => exact absurd hoperator (hop spelling)

/-- The operator and the literal tell whether the derived value satisfies the comparison. -/
theorem satisfied_seed_iff (texts : LinearOrder String) {c : Comparison} (hop : c.operator.Known)
    (hliteral : ∀ x, c.literal ≠ .float x) (hn : ∀ n, c.literal = .integer n → 0 ≤ n.toInt) :
    c.Satisfied texts c.seed ↔ c.Attained := by
  cases hc : c.literal with
  | integer n => exact satisfied_seed_integer texts hc (hn n hc) hop
  | float x => exact absurd hc (hliteral x)
  | text s => exact satisfied_seed_text texts hc hop

/-- A whole number moves by one at most, whatever the operator. -/
theorem seed_near {c : Comparison} {n : Int64} (hc : c.literal = .integer n) (hn : 0 ≤ n.toInt) :
    ∃ m, c.seed = .integer m ∧ n.toInt - 1 ≤ m.toInt ∧ m.toInt ≤ n.toInt + 1 := by
  obtain ⟨m, hseed, hm⟩ := seed_integer hc hn
  have hle := Int64.toInt_le n
  refine ⟨m, hseed, ?_⟩
  split_ifs at hm <;> omega

end Comparison

namespace TreeNode

/-- The default of a variable, in any tree and at any limit, whose first comparison within the limit
    has a known operator and a whole number or a text.  It satisfies that comparison just if the
    operator is `<=`, `>=` or `==`, or it is `<` and the literal a whole number, or `>` and a whole
    number other than the greatest.  No whole number wraps around. -/
theorem defaults_satisfy_iff (root : TreeNode) (limit : Nat) (k : String) (c : Comparison)
    (hfirst : ((root.compared limit).find? fun c => c.name = k) = some c) (hop : c.operator.Known)
    (hliteral : ∀ x, c.literal ≠ .float x) (texts : LinearOrder String) :
    ∃ v, (root.defaults limit).value.find? k = some v
      ∧ (c.Satisfied texts v
        ↔ c.operator = .atMost ∨ c.operator = .atLeast ∨ c.operator = .equal
          ∨ (c.operator = .less ∧ ∃ n, c.literal = .integer n)
          ∨ (c.operator = .greater ∧ ∃ n, c.literal = .integer n
            ∧ n.toInt < Int64.maxValue.toInt))
      ∧ ∀ n, c.literal = .integer n →
        ∃ m, v = .integer m ∧ n.toInt - 1 ≤ m.toInt ∧ m.toInt ≤ n.toInt + 1 := by
  have hnonneg : ∀ n, c.literal = .integer n → 0 ≤ n.toInt := by
    intro n hn
    obtain ⟨node, -, hc⟩ := List.mem_flatMap.1 (List.mem_of_find?_eq_some hfirst)
    exact nonneg_of_mem_comparisons hc hn
  have hdefault : (root.defaults limit).value.find? k = some c.seed := by
    rw [find?_defaults, hfirst]
    rfl
  refine ⟨c.seed, hdefault, Comparison.satisfied_seed_iff texts hop hliteral hnonneg, ?_⟩
  exact fun n hn => Comparison.seed_near hn (hnonneg n hn)

/-- The greatest number and the least literal with a strict operator each, and a text with one. -/
def strict : TreeNode :=
  ⟨"a", "", some "input.x > 9223372036854775807 and input.y < 0",
    [⟨"b", "", some "input.z > 'm'", []⟩]⟩

/-- `y` is below zero as asked; `x` is not above the greatest number, and `z` not after its text. -/
theorem strict_defaults :
    (∃ v, (strict.defaults 1).value.find? "y" = some v
      ∧ Comparison.Satisfied inferInstance ⟨"y", .less, .integer 0⟩ v)
    ∧ (∃ v, (strict.defaults 1).value.find? "x" = some v
      ∧ ¬ Comparison.Satisfied inferInstance ⟨"x", .greater, .integer 9223372036854775807⟩ v)
    ∧ ∃ v, (strict.defaults 1).value.find? "z" = some v
      ∧ ¬ Comparison.Satisfied inferInstance ⟨"z", .greater, .text "m"⟩ v := by
  have hcompared : strict.compared 1 = [⟨"x", .greater, .integer 9223372036854775807⟩,
      ⟨"y", .less, .integer 0⟩, ⟨"z", .greater, .text "m"⟩] := rfl
  refine ⟨?_, ?_, ?_⟩
  · obtain ⟨v, hv, hsatisfied, -⟩ := defaults_satisfy_iff strict 1 "y" ⟨"y", .less, .integer 0⟩
      (by rw [hcompared]; rfl) (by rintro _ ⟨⟩) (by rintro _ ⟨⟩) inferInstance
    exact ⟨v, hv, hsatisfied.2 (by simp)⟩
  · obtain ⟨v, hv, hsatisfied, -⟩ := defaults_satisfy_iff strict 1 "x"
      ⟨"x", .greater, .integer 9223372036854775807⟩
      (by rw [hcompared]; rfl) (by rintro _ ⟨⟩) (by rintro _ ⟨⟩) inferInstance
    refine ⟨v, hv, fun h => ?_⟩
    have hattained : (9223372036854775807 : Int) < Int64.maxValue.toInt := by
      simpa using hsatisfied.1 h
    exact absurd hattained (by decide)
  · obtain ⟨v, hv, hsatisfied, -⟩ := defaults_satisfy_iff strict 1 "z" ⟨"z", .greater, .text "m"⟩
      (by rw [hcompared]; rfl) (by rintro _ ⟨⟩) (by rintro _ ⟨⟩) inferInstance
    exact ⟨v, hv, fun h => absurd (hsatisfied.1 h) (by simp)⟩

end TreeNode

end BranchProbe
