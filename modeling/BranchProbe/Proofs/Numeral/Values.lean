/-
  Floats are compared as the numbers that they stand for.

  1. `value?` is the rational number of a finite float; the infinities and the one float that is not
     a number have none.
  2. A finite float is `Canonical`: it has 53 bits unless its exponent is the least one.  So a
     number with a greater exponent is farther from zero, by a unit at least (`magnitude_add_le`),
     which is the crux.
  3. `compare_eq_cmp` goes through the signs; `lt_iff`, `le_iff` and `beq_iff` read it off.
-/
import BranchProbe.Proofs.Numeral.Finite
import Mathlib.Order.Compare

namespace BranchProbe.Numeral

open Float.Model Float.Model.UnpackedFloat

/-! ## Numbers -/

/-- A number with a sign. -/
def signed : Sign → ℚ → ℚ
  | .negative, q => -q
  | .positive, q => q

/-- The number that a float stands for. -/
def value? : UnpackedFloat → Option ℚ
  | .zero _ => some 0
  | .finite s m e _ => some (signed s (m * 2 ^ e))
  | _ => none

/-- The float stands for this number. -/
def Stands (x : Float) (q : ℚ) : Prop := value? x.toModel.unpack = some q

/-- The finite part of a float is canonical and its exponent is one that can be packed, since it
    was unpacked from bits. -/
theorem canonical_unpack {x : Float.Model} {s : Sign} {m : Nat} {e : Int} {hpos : 0 < m}
    (h : x.unpack = .finite s m e hpos) : Canonical m e ∧ e ≤ 971 := by
  obtain ⟨hbits, hleast, hmost, hfull⟩ := unpack_bounds h
  exact ⟨⟨hbits, hleast, hfull⟩, hmost⟩

/-- A mantissa other than zero stands for a number other than zero. -/
theorem magnitude_pos {m : Nat} (hm : 0 < m) (e : Int) : (0 : ℚ) < m * 2 ^ e := by
  have : (0 : ℚ) < m := by exact_mod_cast hm
  positivity

/-- A float stands for a number unless it is infinite or not a number. -/
theorem stands_or (x : Float) : (∃ q, Stands x q) ∨ x.toModel.unpack = .notANumber
    ∨ ∃ s, x.toModel.unpack = .infinity s := by
  cases hx : x.toModel.unpack with
  | notANumber => exact .inr (.inl rfl)
  | infinity s => exact .inr (.inr ⟨s, rfl⟩)
  | zero s => exact .inl ⟨0, congrArg value? hx⟩
  | finite s m e hpos => exact .inl ⟨signed s (m * 2 ^ e), congrArg value? hx⟩

theorem stands_finite {x : Float} {s : Sign} {m : Nat} {e : Int} {hpos : 0 < m}
    (h : x.toModel.unpack = .finite s m e hpos) : Stands x (signed s (m * 2 ^ e)) :=
  congrArg value? h

theorem stands_zero : Stands 0 0 :=
  congrArg value? (rfl : (0 : Float).toModel.unpack = .zero .positive)

theorem Stands.unique {x : Float} {a b : ℚ} (ha : Stands x a) (hb : Stands x b) : a = b :=
  Option.some.inj (ha.symm.trans hb)

/-- Bits of what is not a number are all alike: only one of the many patterns is valid. -/
theorem packed_of_unpack {b : BitVec Format.binary64.numBits} (hvalid : Format.binary64.Valid b)
    (h : UnpackedFloat.unpack Format.binary64 b = .notANumber) : b = packedNaN Format.binary64 := by
  have hones : unpackExponent b = -1#11 := by
    by_contra hne
    rcases unpack_cases b with ⟨hones, -⟩ | ⟨-, ⟨s, hb⟩ | ⟨s, m, e, hpos, hb, -⟩⟩
    · exact hne hones
    · exact absurd (h.symm.trans hb) UnpackedFloat.noConfusion
    · exact absurd (h.symm.trans hb) UnpackedFloat.noConfusion
  have hinfinity : unpackMantissa b = 0#52 → UnpackedFloat.unpack Format.binary64 b
      = .infinity (Sign.ofBitVec (unpackSign b)) := fun hzero => (if_pos hones).trans (if_pos hzero)
  exact hvalid.eq_packedNaN hones fun hzero =>
    absurd (h.symm.trans (hinfinity hzero)) UnpackedFloat.noConfusion

/-- There is one float only that is not a number. -/
theorem eq_of_notANumber {x y : Float} (hx : x.toModel.unpack = .notANumber)
    (hy : y.toModel.unpack = .notANumber) : x = y := by
  obtain ⟨⟨⟨b⟩, hb⟩⟩ := x
  obtain ⟨⟨⟨c⟩, hc⟩⟩ := y
  obtain rfl : b = c := (packed_of_unpack hb hx).trans (packed_of_unpack hc hy).symm
  rfl

/-! ## Comparing -/

/-- Of the numbers with an exponent the greatest is one unit below a power of two. -/
theorem Canonical.add_le {m : Nat} {e : Int} (h : Canonical m e) :
    (m : ℚ) * 2 ^ e + 2 ^ e ≤ 2 ^ (e + 53) := by
  have hm : (m : ℚ) + 1 ≤ 2 ^ 53 := by exact_mod_cast h.bits
  have hpower : (2 : ℚ) ^ (e + 53) = 2 ^ 53 * 2 ^ e := by
    rw [add_comm, zpow_add₀ (by norm_num), zpow_ofNat]
  rw [hpower, ← add_one_mul]
  exact mul_le_mul_of_nonneg_right hm (by positivity)

/-- Above the least exponent a canonical number has its leading bit, so its exponent bounds it
    from below. -/
theorem Canonical.two_zpow_le {m : Nat} {e : Int} (h : Canonical m e) (he : -1074 < e) :
    (2 : ℚ) ^ (e + 52) ≤ m * 2 ^ e := by
  have hfull : (2 : ℚ) ^ 52 ≤ m := by exact_mod_cast h.full.resolve_left (ne_of_gt he)
  rw [add_comm, zpow_add₀ (by norm_num), zpow_ofNat]
  exact mul_le_mul_of_nonneg_right hfull (by positivity)

/-- A number with a greater exponent is at least one unit greater. -/
theorem magnitude_add_le {m m' : Nat} {e e' : Int} (h : Canonical m e) (h' : Canonical m' e')
    (he : e < e') : (m : ℚ) * 2 ^ e + 2 ^ e ≤ m' * 2 ^ e' := by
  have hleast := h.least
  calc (m : ℚ) * 2 ^ e + 2 ^ e ≤ 2 ^ (e + 53) := h.add_le
    _ ≤ 2 ^ (e' + 52) := zpow_le_zpow_right₀ (by norm_num) (by omega)
    _ ≤ m' * 2 ^ e' := h'.two_zpow_le (by omega)

/-- Of canonical numbers the one with the greater exponent is the greater one, whatever the
    mantissas are. -/
theorem magnitude_lt {m m' : Nat} {e e' : Int} (h : Canonical m e) (h' : Canonical m' e')
    (he : e < e') : (m : ℚ) * 2 ^ e < m' * 2 ^ e' :=
  lt_of_lt_of_le (lt_add_of_pos_right _ (by positivity)) (magnitude_add_le h h' he)

/-- Exponents are compared first, and mantissas if these are equal.  For canonical numbers that
    is the order of the numbers themselves. -/
theorem compare_magnitude {m m' : Nat} {e e' : Int} (h : Canonical m e) (h' : Canonical m' e') :
    (compare e e').then (compare m m') = cmp ((m : ℚ) * 2 ^ e) (m' * 2 ^ e') := by
  rcases lt_trichotomy e e' with he | rfl | he
  · rw [Int.compare_eq_lt.2 he, (cmp_eq_lt_iff _ _).2 (magnitude_lt h h' he)]
    rfl
  · have hpower : (0 : ℚ) < 2 ^ e := by positivity
    rw [Int.compare_eq_eq.2 rfl, cmp_mul_pos_right hpower, Nat.strictMono_cast.cmp_map_eq,
      cmp_eq_compare]
    rfl
  · rw [Int.compare_eq_gt.2 he, (cmp_eq_gt_iff _ _).2 (magnitude_lt h' h he)]
    rfl

/-- A float that stands for a number is a zero or a finite one. -/
theorem Stands.cases {x : Float} {q : ℚ} (h : Stands x q) :
    (∃ s, x.toModel.unpack = .zero s ∧ q = 0)
      ∨ ∃ s m e hpos, x.toModel.unpack = .finite s m e hpos ∧ Canonical m e ∧ e ≤ 971
        ∧ q = signed s (m * 2 ^ e) := by
  rw [Stands] at h
  cases hx : x.toModel.unpack with
  | notANumber => rw [hx] at h; cases h
  | infinity s => rw [hx] at h; cases h
  | zero s =>
    rw [hx] at h
    exact .inl ⟨s, rfl, (Option.some.inj h).symm⟩
  | finite s m e hpos =>
    rw [hx] at h
    obtain ⟨hcanonical, he⟩ := canonical_unpack hx
    exact .inr ⟨s, m, e, hpos, rfl, hcanonical, he, (Option.some.inj h).symm⟩

theorem Stands.zero {x : Float} (h : Stands x 0) : ∃ s, x.toModel.unpack = .zero s := by
  rcases h.cases with ⟨s, hx, -⟩ | ⟨s, m, e, hpos, -, -, -, hvalue⟩
  · exact ⟨s, hx⟩
  · have hmagnitude := magnitude_pos hpos e
    cases s with
    | negative => exact absurd hvalue.symm (neg_neg_of_pos hmagnitude).ne
    | positive => exact absurd hvalue hmagnitude.ne

/-- Floats are compared as their numbers.  The signs decide first; with the same sign the
    exponents decide, and then the mantissas, all of them turned around below zero. -/
theorem compare_eq_cmp {x y : Float} {a b : ℚ} (hx : Stands x a) (hy : Stands y b) :
    x.toModel.unpack.compare y.toModel.unpack = some (cmp a b) := by
  rcases hx.cases with ⟨s, hu, rfl⟩ | ⟨s, m, e, hpos, hu, h, -, rfl⟩ <;>
    rcases hy.cases with ⟨s', hw, rfl⟩ | ⟨s', m', e', hpos', hw, h', -, rfl⟩ <;> rw [hu, hw]
  · rw [cmp_self_eq_eq]
    rfl
  · have hb := magnitude_pos hpos' e'
    cases s' with
    | negative => exact congrArg some ((cmp_eq_gt_iff _ _).2 (neg_neg_of_pos hb)).symm
    | positive => exact congrArg some ((cmp_eq_lt_iff _ _).2 hb).symm
  · have ha := magnitude_pos hpos e
    cases s with
    | negative => exact congrArg some ((cmp_eq_lt_iff _ _).2 (neg_neg_of_pos ha)).symm
    | positive => exact congrArg some ((cmp_eq_gt_iff _ _).2 ha).symm
  · have ha := magnitude_pos hpos e
    have hb := magnitude_pos hpos' e'
    have hcompare := compare_magnitude h h'
    cases s <;> cases s'
    · -- below zero the greater magnitude is the smaller number
      have hneg : StrictAnti fun q : ℚ => -q := fun _ _ => neg_lt_neg
      refine congrArg some (Eq.trans ?_ (hneg.cmp_map_eq _ _).symm)
      rw [hcompare, cmp_swap]
    · exact congrArg some ((cmp_eq_lt_iff _ _).2 (lt_trans (neg_neg_of_pos ha) hb)).symm
    · exact congrArg some ((cmp_eq_gt_iff _ _).2 (lt_trans (neg_neg_of_pos hb) ha)).symm
    · exact congrArg some hcompare

section Compare

variable {x y : Float} {a b : ℚ} (hx : Stands x a) (hy : Stands y b)

include hx hy

/-- Floats are less than each other as the numbers are for which they stand. -/
theorem lt_iff : x < y ↔ a < b := by
  have hlt : x < y ↔ (x.toModel.unpack.compare y.toModel.unpack == some .lt) = true :=
    decide_eq_true_iff
  rw [hlt, compare_eq_cmp hx hy, ← cmp_eq_lt_iff]
  cases cmp a b <;> decide

theorem le_iff : x ≤ y ↔ a ≤ b := by
  have hle : x ≤ y ↔ (x.toModel.unpack.compare y.toModel.unpack).any (·.isLE) = true :=
    decide_eq_true_iff
  rw [hle, compare_eq_cmp hx hy, ← not_lt, ← cmp_eq_gt_iff]
  cases cmp a b <;> decide

/-- Floats are equal just if their numbers are, so the two zeros are. -/
theorem beq_iff : (x == y) = true ↔ a = b := by
  have hbeq : (x == y) = (x.toModel.unpack.compare y.toModel.unpack == some .eq) := rfl
  rw [hbeq, compare_eq_cmp hx hy, ← cmp_eq_eq_iff a b]
  cases cmp a b <;> decide

end Compare

end BranchProbe.Numeral
