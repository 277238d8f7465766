/-
  Which values are moved by their alternatives.

  1. `Movable` lists the values that are not: zero and the greatest number, and floats so far from
     zero that a step is lost in rounding.
  2. `alternatives_integer`: the clamps are reached at zero and at the greatest number.
  3. A float is raised by a sum that is rounded.  Below `farthest` the error is less than the step
     (`not_same_raised`), and from there on the float absorbs the step (`same_raised`).
  4. `moves_iff_movable` puts the kinds of values together.
-/
import BranchProbe.Variations
import BranchProbe.Proofs.Defaults
import BranchProbe.Proofs.Numeral.Nearest

namespace BranchProbe.InputValue

/-- The same value.  Floats are the same if they compare equal, whatever the sign of a zero is. -/
def Same : InputValue → InputValue → Prop
  | .float x, .float y => x = y ∨ (x == y) = true
  | v, w => v = w

/-- A value is the same as itself, also where its float is not a number. -/
theorem same_refl (v : InputValue) : v.Same v := by
  cases v with
  | float x => exact .inl rfl
  | _ => rfl

/-- All that is tried in place of the value is another one. -/
def Moves (v : InputValue) : Prop := ∀ w ∈ v.alternatives, ¬ w.Same v

/-- Two to the power of 57, from where on a step is less than half of the last place. -/
def farthest : Float := 144115188075855872

/-- A number is neither zero nor so great that it stays as it is when a step is added. -/
def Movable : InputValue → Prop
  | .integer n => n ≠ 0 ∧ n ≠ Int64.maxValue
  | .float x => (x == 0) = false ∧ -farthest ≤ x ∧ x < farthest
  | .text _ | .bool _ | .other _ => True

/-! ## Whole numbers -/

/-- The greater of two machine words is the greater of their numbers. -/
theorem toInt_max (n m : Int64) : (max n m).toInt = max n.toInt m.toInt := by
  show (if n ≤ m then m else n).toInt = _
  split
  · next hle => exact (Int.max_eq_right (Int64.le_iff_toInt_le.1 hle)).symm
  · next hnot =>
    have hlt : m.toInt < n.toInt := Int.not_le.1 fun h => hnot (Int64.le_iff_toInt_le.2 h)
    exact (Int.max_eq_left (Int.le_of_lt hlt)).symm

/-- A whole number is moved both ways, and stops at the greatest one and at zero. -/
theorem alternatives_integer (n : Int64) :
    ∃ up down, (integer n).alternatives = [.integer up, .integer down]
      ∧ up.toInt = min (n.toInt + 10) Int64.maxValue.toInt ∧ down.toInt = max 0 (n.toInt - 10) := by
  have hmin : Int64.minValue.toInt = -9223372036854775808 := rfl
  have hmax : Int64.maxValue.toInt = 9223372036854775807 := rfl
  have hzero : (0 : Int64).toInt = 0 := rfl
  have hlow := Int64.minValue_le_toInt n
  have hhigh := Int64.toInt_le n
  have hup := Literal.toInt_clamp (n.toInt + 10)
  have hdown := Literal.toInt_clamp (n.toInt - 10)
  refine ⟨Literal.clamp (n.toInt + 10), max (Literal.clamp (n.toInt - 10)) 0, rfl, by omega, ?_⟩
  rw [toInt_max]
  omega

theorem same_integer {n m : Int64} : (integer n).Same (integer m) ↔ n.toInt = m.toInt := by
  rw [Int64.toInt_inj]
  exact ⟨InputValue.integer.inj, congrArg _⟩

/-- A number stops at both ends of its range, and is moved twice unless it is one of them. -/
theorem moves_integer (n : Int64) : (integer n).Moves ↔ n ≠ 0 ∧ n ≠ Int64.maxValue := by
  have hzero : (0 : Int64).toInt = 0 := rfl
  have hhigh := Int64.toInt_le n
  obtain ⟨up, down, halternatives, hup, hdown⟩ := alternatives_integer n
  rw [Moves, halternatives, List.forall_mem_cons, List.forall_mem_singleton, same_integer,
    same_integer, ne_eq, ne_eq, ← Int64.toInt_inj, ← Int64.toInt_inj]
  omega

/-! ## Floats -/

section Floats

open Numeral Float.Model Float.Model.UnpackedFloat

/-- A step is ten, as a float of 53 bits. -/
theorem unpack_step : ∃ hpos, (Float.ofInt numericStep).toModel.unpack
    = .finite .positive (5 * 2 ^ 50) (-49) hpos :=
  ⟨by decide, rfl⟩

theorem stands_step : Stands (Float.ofInt numericStep) 10 := by
  obtain ⟨hpos, hstep⟩ := unpack_step
  convert stands_finite hstep using 1
  norm_num [signed]

/-- From `2 ^ 57` on a step of ten is lost in a float: there the last place is 32, and ten is
    less than half of it. -/
theorem stands_farthest : Stands farthest (2 ^ (57 : Int)) := by
  have hbits : farthest.toModel.unpack = .finite .positive (2 ^ 52) 5 (by decide) := rfl
  convert stands_finite hbits using 1
  norm_num [signed]

theorem stands_neg_farthest : Stands (-farthest) (-2 ^ (57 : Int)) := by
  have hbits : (-farthest).toModel.unpack = .finite .negative (2 ^ 52) 5 (by decide) := rfl
  convert stands_finite hbits using 1
  norm_num [signed]

/-- Floats that stand for numbers are the same just if their numbers are, so the sign of a zero
    does not count. -/
theorem same_float {x y : Float} {a b : ℚ} (hx : Stands x a) (hy : Stands y b) :
    (float x).Same (float y) ↔ a = b := by
  rw [Same, beq_iff hx hy, or_iff_right_iff_imp]
  rintro rfl
  exact hx.unique hy

/-- Cutting a float off at zero cuts its number off at zero.  A negative zero is not above zero,
    so it is replaced by the positive one, which stands for the same number. -/
theorem stands_atLeastZero {x : Float} {q : ℚ} (h : Stands x q) :
    Stands (atLeastZero x) (max q 0) := by
  rw [atLeastZero]
  split
  · next hpos => rwa [max_eq_left ((lt_iff stands_zero h).1 hpos).le]
  · next hnot =>
    rw [max_eq_right (not_lt.1 fun hpos => hnot ((lt_iff stands_zero h).2 hpos))]
    exact stands_zero

section Steps

variable {x : Float} {q : ℚ} (h : Stands x q) (hq : q ≠ 0)

include h hq

/-- Below the farthest number the error of the sum is less than the step. -/
theorem not_same_raised (hlow : -2 ^ (57 : Int) ≤ q) (hhigh : q < 2 ^ (57 : Int)) :
    ¬ (float (x + Float.ofInt numericStep)).Same (float x) := by
  have hbelow : |q + 10| < 2 ^ (57 : Int) := by
    rcases le_or_gt 0 q with hnonneg | hneg
    · -- the float is sixteen below the farthest number at least, so the sum is below it
      have hunit := h.add_le (n := 57) (by decide) (by rwa [abs_of_nonneg hnonneg])
      rw [abs_of_nonneg hnonneg] at hunit
      rw [abs_of_nonneg (by linarith)]
      norm_num at hunit ⊢
      linarith
    · rw [abs_lt]
      norm_num at hlow ⊢
      constructor <;> linarith
  obtain ⟨v, hv, hnear⟩ := (roundsTo_add h stands_step hq (by norm_num)).near (by decide)
    (by decide) hbelow
  rw [same_float hv h]
  rintro rfl
  norm_num at hnear

/-- From the farthest number on a float absorbs the step: the sum is less than half of the last
    place away from the float, so it is rounded back to it. -/
theorem same_raised (hfar : q < -2 ^ (57 : Int) ∨ 2 ^ (57 : Int) ≤ q) :
    (float (x + Float.ofInt numericStep)).Same (float x) := by
  have habove : 2 ^ (57 : Int) ≤ |q| ∧ 2 ^ (57 : Int) ≤ |q + 10| := by
    rcases hfar with hneg | hpos
    · -- the float is thirty-two beyond at least, so the sum is beyond too
      have hlt : 2 ^ (57 : Int) < |q| := lt_of_lt_of_le (lt_neg.1 hneg) (neg_le_abs q)
      have hunit := h.le_of_lt (by decide) hlt
      rw [abs_of_neg (hneg.trans (by norm_num))] at hunit
      refine ⟨hlt.le, le_trans ?_ (neg_le_abs (q + 10))⟩
      norm_num at hunit ⊢
      linarith
    · exact ⟨hpos.trans (le_abs_self q), le_trans (by linarith) (le_abs_self (q + 10))⟩
  have hnear : |q - (q + 10)| < 2 ^ (57 - 53 : Int) := by norm_num
  have habsorbed := (roundsTo_add h stands_step hq (by norm_num)).absorbs h habove.1 habove.2 hnear
  exact (same_float habsorbed h).2 rfl

/-- Within the bounds lowering a float by the step changes it, also where the result is cut off
    at zero. -/
theorem not_same_lowered (hlow : -2 ^ (57 : Int) ≤ q) (hhigh : q < 2 ^ (57 : Int)) :
    ¬ (float (atLeastZero (x - Float.ofInt numericStep))).Same (float x) := by
  have hround := roundsTo_sub h stands_step hq (by norm_num)
  have hwide : |q - 10| < 2 ^ (58 : Int) := by
    rw [abs_lt]
    norm_num at hlow hhigh ⊢
    constructor <;> linarith
  obtain ⟨v, hv, -⟩ := hround.near (by decide) (by decide) hwide
  rw [same_float (stands_atLeastZero hv) h]
  intro hsame
  -- the number is above zero, so it is not held there, and the difference is less than ten away
  have hpos : 0 < q := lt_of_le_of_ne (hsame ▸ le_max_right v 0) hq.symm
  obtain rfl : v = q := by
    rcases max_choice v 0 with hmax | hmax
    · exact hmax.symm.trans hsame
    · exact absurd (hsame.symm.trans hmax) hq
  have hbelow : |v - 10| < 2 ^ (57 : Int) := by
    rw [abs_lt]
    norm_num at hhigh ⊢
    constructor <;> linarith
  obtain ⟨w, hw, hnear⟩ := hround.near (by decide) (by decide) hbelow
  obtain rfl := hv.unique hw
  norm_num at hnear

end Steps

/-- A zero is lowered to ten below, and held at zero.  So the second of its two steps leads back
    to the value, whatever the sign of the zero. -/
theorem same_lowered_zero {x : Float} (h : Stands x 0) :
    (float (atLeastZero (x - Float.ofInt numericStep))).Same (float x) := by
  obtain ⟨hpos, hstep⟩ := unpack_step
  obtain ⟨s, hx⟩ := h.zero
  have hsub : (x - Float.ofInt numericStep).toModel.unpack = (Float.Model.pack (UnpackedFloat.sub
    Format.binary64 x.toModel.unpack (Float.ofInt numericStep).toModel.unpack)).unpack := rfl
  have hbelow : (x - Float.ofInt numericStep).toModel.unpack
      = .finite .negative (5 * 2 ^ 50) (-49) hpos := by
    rw [hsub, hx, hstep]
    exact unpack_pack .negative hpos (by decide) (by decide) (by decide)
  refine (same_float (stands_atLeastZero (stands_finite hbelow)) h).2 (max_eq_right ?_)
  norm_num [signed]

/-- The infinities and what is not a number are not moved at all, and they lie outside of the
    bounds.  These floats stand for no number, so they are computed and not bounded. -/
theorem same_raised_of_unpack {x : Float}
    (hx : x.toModel.unpack = .notANumber ∨ ∃ s, x.toModel.unpack = .infinity s) :
    (float (x + Float.ofInt numericStep)).Same (float x)
      ∧ ¬ (-farthest ≤ x ∧ x < farthest) := by
  obtain ⟨hpos, hstep⟩ := unpack_step
  have hadd : (x + Float.ofInt numericStep).toModel.unpack = (Float.Model.pack (UnpackedFloat.add
    Format.binary64 x.toModel.unpack (Float.ofInt numericStep).toModel.unpack)).unpack := rfl
  have hlow : -farthest ≤ x ↔ (-farthest).toModel.unpack.le x.toModel.unpack = true :=
    decide_eq_true_iff
  have hhigh : x < farthest ↔ x.toModel.unpack.lt farthest.toModel.unpack = true :=
    decide_eq_true_iff
  rw [hlow, hhigh]
  rcases hx with hx | ⟨s, hx⟩ <;> rw [hx, hstep] at hadd <;> rw [hx]
  · refine ⟨.inl (eq_of_notANumber (hadd.trans unpack_pack_notANumber) hx), fun hin => ?_⟩
    exact absurd hin.2 Bool.false_ne_true
  · have hbeq : (x + Float.ofInt numericStep == x)
      = (x + Float.ofInt numericStep).toModel.unpack.beq x.toModel.unpack := rfl
    rw [Same, hbeq, hadd.trans (unpack_pack_infinity s), hx]
    cases s with
    | negative => exact ⟨.inr rfl, fun hin => absurd hin.1 Bool.false_ne_true⟩
    | positive => exact ⟨.inr rfl, fun hin => absurd hin.2 Bool.false_ne_true⟩

/-- A float is moved just if it is not zero and within the bounds.  At zero the lowered value is
    cut off to zero again; beyond the bounds one of the steps is absorbed. -/
theorem moves_float (x : Float) :
    (float x).Moves ↔ (x == 0) = false ∧ -farthest ≤ x ∧ x < farthest := by
  rw [Moves, alternatives, List.forall_mem_cons, List.forall_mem_singleton]
  rcases stands_or x with ⟨q, h⟩ | hx
  · rw [← Bool.not_eq_true, beq_iff h stands_zero, le_iff stands_neg_farthest h,
      lt_iff h stands_farthest]
    by_cases hq : q = 0
    · subst hq
      exact iff_of_false (fun hmoves => hmoves.2 (same_lowered_zero h)) fun hne => hne.1 rfl
    · constructor
      · intro hmoves
        refine ⟨hq, ?_⟩
        by_contra hout
        refine hmoves.1 (same_raised h hq ?_)
        rwa [not_and_or, not_le, not_lt] at hout
      · rintro ⟨-, hlow, hhigh⟩
        exact ⟨not_same_raised h hq hlow hhigh, not_same_lowered h hq hlow hhigh⟩
  · obtain ⟨hsame, hout⟩ := same_raised_of_unpack hx
    exact iff_of_false (fun hmoves => hmoves.1 hsame) fun hin => hout hin.2

end Floats

/-! ## Texts -/

/-- An empty text is filled, and any other one emptied, so a text has one alternative and it is
    always another text. -/
theorem moves_text (s : String) : (text s).Moves := by
  have hsame : ∀ {t u : String}, (text t).Same (text u) → t = u := fun h => InputValue.text.inj h
  rw [Moves, alternatives]
  split
  · next hempty =>
    refine List.forall_mem_singleton.2 fun h => ?_
    rw [← hsame h] at hempty
    exact absurd hempty (by decide)
  · next hfull =>
    refine List.forall_mem_singleton.2 fun h => ?_
    rw [← hsame h] at hfull
    exact hfull rfl

/-- A value is moved just if it is not where the steps stop. -/
theorem moves_iff_movable (v : InputValue) : v.Moves ↔ v.Movable := by
  cases v with
  | integer n => exact moves_integer n
  | float x => exact moves_float x
  | text s => exact iff_of_true (moves_text s) trivial
  | bool b => exact iff_of_true (List.forall_mem_nil _) trivial
  | other d => exact iff_of_true (List.forall_mem_nil _) trivial

end BranchProbe.InputValue
