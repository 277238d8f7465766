/-
  Sums, products and quotients of floats are rounded to the nearest float.

  1. `roundWithAccuracy_nearest`: what is rounded becomes a multiple of the last place of its size,
     half a unit away at most and even if just half a unit, and canonical.
  2. `RoundsTo` says so of a number with a sign, with an infinity for what overflows, and is the whole
     of the matter: a number is rounded to one value (`RoundsTo.unique`).
  3. `roundsTo_roundWithAccuracy` is the crux, one rounding of a number that a mantissa and its
     accuracy hold.  `roundsTo_add`, `roundsTo_sub`, `roundsTo_mul` and `roundsTo_div` differ only in
     the number that they hand to it.
  4. What is needed of rounding elsewhere follows: below a power of two a sum is `near`, from there on
     a float `absorbs` what is less than half of its last place, and a float is rounded to itself
     (`exact`).
-/
import BranchProbe.Proofs.Numeral.Values

namespace BranchProbe.Numeral

open Float.Model Float.Model.UnpackedFloat

/-! ## Rounding -/

/-- The first shift leaves 53 bits at most, and it leaves less only at the least exponent.  The
    condition on `e` says that this shift is one to the right: a number with less bits must be
    shifted up before it is cut. -/
theorem cut_bounds {n k : Nat} {e : Int} (hk : (max (n.log2 + e - 52) (-1074) - e).toNat = k)
    (he : e ≤ max (n.log2 + e - 52) (-1074)) :
    n / 2 ^ k < 2 ^ 53 ∧ (e + k = -1074 ∨ 2 ^ 52 ≤ n / 2 ^ k) := by
  constructor
  · rw [Nat.div_lt_iff_lt_mul (Nat.two_pow_pos k), ← Nat.pow_add]
    exact Nat.lt_of_lt_of_le Nat.lt_log2_self (Nat.pow_le_pow_right (by decide) (by omega))
  · rcases Int.le_total (n.log2 + e - 52) (-1074) with hleast | hfull
    · exact .inl (by omega)
    · refine .inr ?_
      have hlog : n.log2 = 52 + k := by omega
      have hne : n ≠ 0 := by
        rintro rfl
        rw [Nat.log2_zero] at hlog
        omega
      rw [Nat.le_div_iff_mul_le (Nat.two_pow_pos k), ← Nat.pow_add, ← hlog]
      exact Nat.log2_self_le hne

/-- A number is rounded to the nearest multiple of its last place, and to the even one of two that are
    equally near.  The number need not be whole: it is enough that the mantissa and its accuracy
    hold it, so one lemma serves for sums, products and quotients.  What comes out is zero or
    canonical, since the second shift only mends a carry through all bits. -/
theorem roundWithAccuracy_nearest (s : Sign) {n k : Nat} {e : Int} {acc : Accuracy} {q : ℚ}
    (hq : Holds (.ofMantissaAndAccuracy n acc) q)
    (hk : (max (n.log2 + e - 52) (-1074) - e).toNat = k) (he : e ≤ max (n.log2 + e - 52) (-1074)) :
    ∃ r : Nat, |(r : ℚ) * 2 ^ (e + k) - q * 2 ^ e| ≤ 2 ^ (e + k) / 2
      ∧ (|(r : ℚ) * 2 ^ (e + k) - q * 2 ^ e| = 2 ^ (e + k) / 2 → Even r)
      ∧ ((r = 0 ∧ roundWithAccuracy Format.binary64 s n e acc = .zero s)
        ∨ ∃ m e' hpos, roundWithAccuracy Format.binary64 s n e acc = .finite s m e' hpos
          ∧ Canonical m e' ∧ (m : ℚ) * 2 ^ e' = r * 2 ^ (e + k)) := by
  have hshift := shiftToTargetExponent_eq n e acc hk
  have hheld := hq.shiftRight k
  have hnear := hheld.near
  have heven := hheld.even
  have hbounds := rounded_shiftRight_bounds n acc k
  obtain ⟨hcut, hfull⟩ := cut_bounds hk he
  obtain ⟨r, hr⟩ :
      ∃ r, (ExtendedMantissa.ofMantissaAndAccuracy n acc >>> k).roundedMantissa = r := ⟨_, rfl⟩
  rw [hr] at hnear heven hbounds
  -- the error in units of the last place
  have hpower : (0 : ℚ) < 2 ^ (e + k) := by positivity
  have hvalue : q * 2 ^ e = q / 2 ^ k * 2 ^ (e + k) := by
    rw [zpow_add₀ (by norm_num), zpow_natCast, mul_comm (2 ^ e : ℚ), ← mul_assoc,
      div_mul_cancel₀ _ (by positivity)]
  have herror : |(r : ℚ) * 2 ^ (e + k) - q * 2 ^ e| = |(r : ℚ) - q / 2 ^ k| * 2 ^ (e + k) := by
    rw [hvalue, ← sub_mul, abs_mul, abs_of_pos hpower]
  refine ⟨r, ?_, fun htie => heven ?_, ?_⟩
  · rw [herror]
    linarith [mul_le_mul_of_nonneg_right hnear hpower.le]
  · refine mul_right_cancel₀ hpower.ne' ?_
    rw [← herror, htie, one_div_mul_eq_div]
  · -- the second shift is that of a mantissa with 53 bits at most, or of none
    by_cases hzero : r = 0
    · refine .inl ⟨hzero, ?_⟩
      subst hzero
      have hnone : (shiftToTargetExponent Format.binary64 0 (e + k) .exact).1.mantissa = 0 := by
        rw [shiftToTargetExponent_eq 0 _ .exact rfl, mantissa_shiftRight]
        exact Nat.zero_div _
      rw [roundWithAccuracy_eq s (by rw [hshift]; exact hr) (by rw [hshift]) hnone rfl, dif_pos rfl]
    · refine .inr ?_
      obtain ⟨m, e', hm, he', hne, -, -, hcanonical, hvalue⟩ :=
        shiftToTargetExponent_rounded (r := r) (t := e + k) hzero (by omega) (by omega) (by omega)
      refine ⟨m, e', Nat.pos_of_ne_zero hne, ?_, hcanonical, hvalue⟩
      rw [roundWithAccuracy_eq s (by rw [hshift]; exact hr) (by rw [hshift]) hm he', dif_neg hne]

/-! ## Numbers with a sign -/

/-- `2 ^ t` is the last place of a number: it has 53 places, or it has all down to the least. -/
structure LastPlace (q : ℚ) (t : Int) : Prop where
  least : -1074 ≤ t
  full : t = -1074 ∨ (2 : ℚ) ^ (t + 52) ≤ |q|
  bits : |q| < 2 ^ (t + 53)

/-- The float stands for the multiple of the last place that is nearest to the number, the even one
    of two that are equally near; it is infinite if this multiple overflows.  There is just one such
    value (`RoundsTo.unique`). -/
def RoundsTo (q : ℚ) (x : Float) : Prop :=
  ∃ t z : Int, LastPlace q t ∧ |(z : ℚ) * 2 ^ t - q| ≤ 2 ^ t / 2
    ∧ (|(z : ℚ) * 2 ^ t - q| = 2 ^ t / 2 → Even z)
    ∧ (|(z : ℚ) * 2 ^ t| < overflow → Stands x (z * 2 ^ t))
    ∧ (overflow ≤ |(z : ℚ) * 2 ^ t| →
      x.toModel.unpack = .infinity (if z < 0 then .negative else .positive))

/-- A sign does not change how far a number is from zero. -/
theorem abs_signed (s : Sign) (q : ℚ) : |signed s q| = |q| := by
  cases s with
  | negative => exact abs_neg q
  | positive => rfl

/-- Numbers with the same sign are as far apart as the numbers are without it, so errors may be
    bounded without signs. -/
theorem signed_sub (s : Sign) (p q : ℚ) : signed s p - signed s q = signed s (p - q) := by
  cases s with
  | negative => exact (neg_sub_neg p q).trans (neg_sub p q).symm
  | positive => rfl

/-- A sign does not change whether a number is even, so ties may be broken before or after it is put
    before the mantissa. -/
theorem even_apply (s : Sign) (n : Nat) : Even (s.apply n : Int) ↔ Even n := by
  cases s with
  | negative => simp [Sign.apply, Int.even_coe_nat]
  | positive => simp [Sign.apply, Int.even_coe_nat]

/-- A sign may be put before the mantissa or before the number. -/
theorem cast_apply (s : Sign) (n : Nat) (q : ℚ) :
    ((s.apply n : Int) : ℚ) * q = signed s (n * q) := by
  cases s with
  | negative => simp [Sign.apply, signed]
  | positive => simp [Sign.apply, signed]

/-- The place of the leading bit bounds a number, also one that lies between two mantissas. -/
theorem lastPlace_log2 {n : Nat} {e : Int} {q : ℚ} (hle : (n : ℚ) ≤ q) (hlt : q < n + 1)
    (he : e ≤ max (n.log2 + e - 52) (-1074)) (s : Sign) :
    LastPlace (signed s (q * 2 ^ e)) (max (n.log2 + e - 52) (-1074)) := by
  have hpower : (0 : ℚ) < 2 ^ e := by positivity
  have hnonneg : 0 ≤ q := le_trans (by positivity) hle
  have habs : |signed s (q * 2 ^ e)| = q * 2 ^ e := by
    rw [abs_signed, abs_of_nonneg (by positivity)]
  refine ⟨le_max_right _ _, ?_, ?_⟩
  -- the place is the least one, or the mantissa has its leading bit
  · rcases le_total (n.log2 + e - 52) (-1074) with hleast | hfull
    · exact .inl (max_eq_right hleast)
    · refine .inr ?_
      have hne : n ≠ 0 := by
        rintro rfl
        rw [Nat.log2_zero] at *
        omega
      have hlow : (2 : ℚ) ^ (n.log2 : Int) ≤ n := by
        rw [zpow_natCast]
        exact_mod_cast Nat.log2_self_le hne
      rw [habs, max_eq_left hfull, sub_add_cancel, zpow_add₀ (by norm_num)]
      exact mul_le_mul_of_nonneg_right (hlow.trans hle) hpower.le
  · have hhigh : (n : ℚ) + 1 ≤ 2 ^ ((n.log2 + 1 : Nat) : Int) := by
      rw [zpow_natCast]
      exact_mod_cast Nat.succ_le_of_lt Nat.lt_log2_self
    calc |signed s (q * 2 ^ e)| = q * 2 ^ e := habs
      _ < 2 ^ ((n.log2 + 1 : Nat) : Int) * 2 ^ e :=
        mul_lt_mul_of_pos_right (hlt.trans_le hhigh) hpower
      _ = 2 ^ (((n.log2 + 1 : Nat) : Int) + e) := (zpow_add₀ (by norm_num) _ _).symm
      _ ≤ 2 ^ (max (n.log2 + e - 52) (-1074) + 53) := zpow_le_zpow_right₀ (by norm_num) (by omega)

/-- A canonical number below the overflow is packed as it is, so the float stands for just this
    number.  A mantissa without its leading bit is packed with the least exponent. -/
theorem stands_pack (s : Sign) {m : Nat} {e : Int} (hpos : 0 < m) (h : Canonical m e)
    (hover : (m : ℚ) * 2 ^ e < overflow) :
    Stands (.ofModel (.pack (.finite s m e hpos))) (signed s (m * 2 ^ e)) := by
  have hback : (Float.Model.pack (.finite s m e hpos)).unpack = .finite s m e hpos := by
    have hbits := h.bits
    rcases Nat.lt_or_ge m (2 ^ 52) with hlow | hfull
    · obtain rfl : e = -1074 := h.full.resolve_right (by omega)
      exact unpack_pack_subnormal s hpos hlow
    · have hlog : m.log2 = 52 := (Nat.log2_eq_iff (Nat.ne_of_gt hpos)).2 ⟨hfull, hbits⟩
      exact unpack_pack s hpos hlog h.least (exponent_lt_of_lt_overflow hlog hover)
  exact congrArg value? hback

theorem stands_pack_zero (s : Sign) : Stands (.ofModel (.pack (.zero s))) 0 :=
  congrArg value? (unpack_pack_zero s)

/-- A canonical number that overflows has an exponent that no float has, so it is packed as an
    infinity. -/
theorem unpack_pack_overflow (s : Sign) {m : Nat} {e : Int} (hpos : 0 < m) (h : Canonical m e)
    (hover : overflow ≤ (m : ℚ) * 2 ^ e) :
    (Float.Model.pack (.finite s m e hpos)).unpack = .infinity s := by
  have hunit : (0 : ℚ) < 2 ^ e := by positivity
  have htop : (m : ℚ) * 2 ^ e < 2 ^ (e + 53) := by linarith [h.add_le]
  have hexponent := (zpow_lt_zpow_iff_right₀ (by norm_num : (1 : ℚ) < 2)).1 (hover.trans_lt htop)
  have hbiased : 2 ^ 11 ≤ (e + 1023 + 52).toNat + 1 := by omega
  have hpack : UnpackedFloat.pack Format.binary64 (.finite s m e hpos)
      = UnpackedFloat.pack Format.binary64 (.infinity s) := if_pos hbiased
  have hbits : ∀ u, (Float.Model.pack u).unpack
      = UnpackedFloat.unpack Format.binary64 (UnpackedFloat.pack Format.binary64 u) := fun _ => rfl
  rw [hbits, hpack, ← hbits, unpack_pack_infinity]

/-- What is rounded to 53 bits is the nearest float.  All operations end in this one step. -/
theorem roundsTo_roundWithAccuracy (s : Sign) {n : Nat} {e : Int} {acc : Accuracy} {q : ℚ}
    (hq : Holds (.ofMantissaAndAccuracy n acc) q) (he : e ≤ max (n.log2 + e - 52) (-1074)) :
    RoundsTo (signed s (q * 2 ^ e))
      (.ofModel (.pack (roundWithAccuracy Format.binary64 s n e acc))) := by
  obtain ⟨hle, hlt⟩ := hq.bounds
  rw [mantissa_ofMantissaAndAccuracy] at hle hlt
  have hplace := lastPlace_log2 hle hlt he s
  obtain ⟨k, hk⟩ : ∃ k, (max (n.log2 + e - 52) (-1074) - e).toNat = k := ⟨_, rfl⟩
  obtain ⟨r, hnear, heven, hround⟩ := roundWithAccuracy_nearest s hq hk he
  rw [show max (n.log2 + e - 52) (-1074) = e + k by omega] at hplace
  have herror : |((s.apply r : Int) : ℚ) * 2 ^ (e + k) - signed s (q * 2 ^ e)|
      = |(r : ℚ) * 2 ^ (e + k) - q * 2 ^ e| := by
    rw [cast_apply, signed_sub, abs_signed]
  have habs : |((s.apply r : Int) : ℚ) * 2 ^ (e + k)| = r * 2 ^ (e + k) := by
    rw [cast_apply, abs_signed, abs_of_nonneg (by positivity)]
  refine ⟨_, s.apply r, hplace, herror ▸ hnear, fun htie => ?_, fun hover => ?_, fun hover => ?_⟩
  · rw [even_apply]
    exact heven (herror ▸ htie)
  · rw [habs] at hover
    rw [cast_apply]
    -- a number may be rounded to zero, which keeps its sign
    rcases hround with ⟨rfl, hzero⟩ | ⟨m, e', hpos, hfinite, hcanonical, hvalue⟩
    · have hnone : signed s ((0 : Nat) * 2 ^ (e + k)) = 0 := by cases s <;> simp [signed]
      rw [hzero, hnone]
      exact stands_pack_zero s
    · rw [hfinite, ← hvalue]
      exact stands_pack s hpos hcanonical (hvalue ▸ hover)
  · rw [habs] at hover
    -- zero does not overflow, so there is a mantissa, and it has the sign
    rcases hround with ⟨rfl, -⟩ | ⟨m, e', hpos, hfinite, hcanonical, hvalue⟩
    · rw [Nat.cast_zero, zero_mul] at hover
      exact absurd hover (not_le.2 (by rw [overflow]; positivity))
    · have hsign : (if s.apply (r : Int) < 0 then Sign.negative else .positive) = s := by
        have hr : r ≠ 0 := by
          rintro rfl
          rw [Nat.cast_zero, zero_mul] at hvalue
          exact absurd hvalue (magnitude_pos hpos e').ne'
        cases s with
        | negative => exact if_pos (by simp [Sign.apply]; omega)
        | positive => exact if_neg (by simp [Sign.apply])
      rw [hsign, hfinite]
      exact unpack_pack_overflow s hpos hcanonical (hvalue ▸ hover)

/-- A number with fewer bits is shifted up first, which leaves it as it is. -/
theorem roundsTo_round (s : Sign) {n : Nat} {e : Int} (hn : n ≠ 0) :
    RoundsTo (signed s (n * 2 ^ e))
      (.ofModel (.pack (UnpackedFloat.round Format.binary64 s n e))) := by
  rw [UnpackedFloat.round, targetExponent_totalExponent, decreaseExponent]
  dsimp only
  obtain ⟨j, hj⟩ : ∃ j, (e - max (n.log2 + e - 52) (-1074)).toNat = j := ⟨_, rfl⟩
  have hlog := log2_shiftLeft hn j
  rw [hj, ← value_shiftLeft_sub n j e]
  exact roundsTo_roundWithAccuracy s (holds_exact _) (by omega)

/-- What is less than half of the least last place is rounded to zero. -/
theorem roundsTo_tiny {x : Float} {q : ℚ} (hx : Stands x 0) (hq : |q| < 2 ^ (-1075 : Int)) :
    RoundsTo q x := by
  have hhalf : (2 : ℚ) ^ (-1074 : Int) / 2 = 2 ^ (-1075 : Int) := by
    rw [show (-1075 : Int) = -1074 - 1 by omega, zpow_sub₀ (by norm_num), zpow_one]
  refine ⟨-1074, 0, ⟨le_refl _, .inl rfl, ?_⟩, ?_, fun _ => ⟨0, rfl⟩, fun _ => ?_, fun hover => ?_⟩
  · exact hq.trans_le (zpow_le_zpow_right₀ (by norm_num) (by norm_num))
  · rw [Int.cast_zero, zero_mul, zero_sub, abs_neg, hhalf]
    exact hq.le
  · rwa [Int.cast_zero, zero_mul]
  · rw [Int.cast_zero, zero_mul, abs_zero] at hover
    exact absurd hover (not_le.2 (by rw [overflow]; positivity))

theorem roundsTo_zero {x : Float} (hx : Stands x 0) : RoundsTo 0 x :=
  roundsTo_tiny hx (by rw [abs_zero]; positivity)

/-! ## Sums -/

/-- A sum has been computed as a whole number of units; its sign is split off before it is
    rounded. -/
theorem roundsTo_normalize (n e : Int) (s : Sign) :
    RoundsTo (n * 2 ^ e) (.ofModel (.pack (UnpackedFloat.normalize Format.binary64 n e s))) := by
  rw [UnpackedFloat.normalize]
  split
  · next hlt =>
    have hneg := Int.compare_eq_lt.1 hlt
    obtain ⟨k, rfl⟩ : ∃ k : Nat, n = -k := ⟨n.natAbs, by omega⟩
    have hround := roundsTo_round .negative (n := k) (e := e) (by omega)
    have hback : (- -(k : Int)).toNat = k := by omega
    rw [← cast_apply] at hround
    rw [hback]
    exact hround
  · next heq =>
    rw [Int.compare_eq_eq.1 heq, Int.cast_zero, zero_mul]
    exact roundsTo_zero (stands_pack_zero s)
  · next hgt =>
    have hpos := Int.compare_eq_gt.1 hgt
    obtain ⟨k, rfl⟩ : ∃ k : Nat, n = k := ⟨n.natAbs, by omega⟩
    have hround := roundsTo_round .positive (n := k) (e := e) (by omega)
    rwa [← cast_apply] at hround

/-- A float that stands for a number other than zero is finite. -/
theorem Stands.finite {x : Float} {q : ℚ} (h : Stands x q) (hq : q ≠ 0) :
    ∃ s m e hpos, x.toModel.unpack = .finite s m e hpos ∧ q = signed s (m * 2 ^ e) := by
  rcases h.cases with ⟨-, -, rfl⟩ | ⟨s, m, e, hpos, hx, -, -, hvalue⟩
  · exact absurd rfl hq
  · exact ⟨s, m, e, hpos, hx, hvalue⟩

section Sums

variable {x y : Float} {a b : ℚ} (hx : Stands x a) (hy : Stands y b) (ha : a ≠ 0) (hb : b ≠ 0)

include hx hy ha hb

/-- The sum of two floats other than zero is the float nearest to the sum of the numbers: both
    are brought to the lesser exponent, where their sum is exact, and then it is rounded once. -/
theorem roundsTo_add : RoundsTo (a + b) (x + y) := by
  obtain ⟨s, m, e, hpos, hu, rfl⟩ := hx.finite ha
  obtain ⟨s', m', e', hpos', hv, rfl⟩ := hy.finite hb
  have hadd : x + y = .ofModel (.pack (UnpackedFloat.add Format.binary64 x.toModel.unpack
    y.toModel.unpack)) := rfl
  rw [hadd, hu, hv, ← value_decreaseExponent (min_le_left e e'),
    ← value_decreaseExponent (min_le_right e e'), ← cast_apply, ← cast_apply, ← add_mul,
    ← Int.cast_add]
  exact roundsTo_normalize _ _ _

theorem roundsTo_sub : RoundsTo (a - b) (x - y) := by
  obtain ⟨s, m, e, hpos, hu, rfl⟩ := hx.finite ha
  obtain ⟨s', m', e', hpos', hv, rfl⟩ := hy.finite hb
  have hsub : x - y = .ofModel (.pack (UnpackedFloat.sub Format.binary64 x.toModel.unpack
    y.toModel.unpack)) := rfl
  rw [hsub, hu, hv, ← value_decreaseExponent (min_le_left e e'),
    ← value_decreaseExponent (min_le_right e e'), ← cast_apply, ← cast_apply, ← sub_mul,
    ← Int.cast_sub]
  exact roundsTo_normalize _ _ _

end Sums

/-! ## Products and quotients -/

theorem signed_mul (s s' : Sign) (p q : ℚ) : signed s p * signed s' q = signed (s * s') (p * q) := by
  cases s with
  | negative =>
    cases s' with
    | negative => exact neg_mul_neg p q
    | positive => exact neg_mul p q
  | positive =>
    cases s' with
    | negative => exact mul_neg p q
    | positive => rfl

theorem signed_div (s s' : Sign) (p q : ℚ) : signed s p / signed s' q = signed (s / s') (p / q) := by
  cases s with
  | negative =>
    cases s' with
    | negative => exact neg_div_neg_eq p q
    | positive => exact neg_div q p
  | positive =>
    cases s' with
    | negative => exact div_neg p
    | positive => rfl

/-- A product is not shifted up before it is rounded, so it must have 53 bits or the least exponent
    by itself. -/
theorem roundsTo_mul_finite (s s' : Sign) {m m' : Nat} {e e' : Int} (hpos : 0 < m) (hpos' : 0 < m')
    (hfull : 52 ≤ (m * m').log2 ∨ e + e' ≤ -1074) :
    RoundsTo (signed (s * s') (m * 2 ^ e * (m' * 2 ^ e')))
      (.ofModel (.pack (UnpackedFloat.mul Format.binary64 (.finite s m e hpos)
        (.finite s' m' e' hpos')))) := by
  have hround := roundsTo_roundWithAccuracy (s * s') (holds_exact (m * m'))
    (e := e + e') (by omega)
  have hvalue : ((m * m' : Nat) : ℚ) * 2 ^ (e + e') = m * 2 ^ e * (m' * 2 ^ e') := by
    rw [zpow_add₀ (by norm_num), Nat.cast_mul]
    ring
  rw [← hvalue]
  exact hround

/-- Shifting the dividend up by the difference of the sizes leaves a quotient of 53 bits. -/
theorem log2_quotient {m m' j : Nat} (hm : m ≠ 0) (hpos' : 0 < m')
    (h : 53 + m'.log2 ≤ m.log2 + j) : 52 ≤ ((m <<< j) / m').log2 := by
  have hdividend : 2 ^ (m.log2 + j) ≤ m <<< j := by
    rw [← log2_shiftLeft hm j]
    exact Nat.log2_self_le fun hzero => hm (Nat.shiftLeft_eq_zero_iff.1 hzero)
  have hquotient : 2 ^ 52 ≤ (m <<< j) / m' := by
    rw [Nat.le_div_iff_mul_le hpos']
    calc 2 ^ 52 * m' ≤ 2 ^ 52 * 2 ^ (m'.log2 + 1) := Nat.mul_le_mul_left _ Nat.lt_log2_self.le
      _ = 2 ^ (53 + m'.log2) := by rw [← Nat.pow_add]; congr 1; omega
      _ ≤ 2 ^ (m.log2 + j) := Nat.pow_le_pow_right (by decide) h
      _ ≤ m <<< j := hdividend
  exact (Nat.le_log2 (by omega)).2 hquotient

/-- A quotient is cut to a whole number of units that are small enough for 53 bits, and what is cut
    off is kept as an accuracy.  So it is rounded once, like everything else. -/
theorem roundsTo_div_finite (s s' : Sign) {m m' : Nat} {e e' : Int} (hpos : 0 < m)
    (hpos' : 0 < m') :
    RoundsTo (signed (s / s') (m * 2 ^ e / (m' * 2 ^ e')))
      (.ofModel (.pack (UnpackedFloat.div Format.binary64 (.finite s m e hpos)
        (.finite s' m' e' hpos')))) := by
  have htarget : Format.binary64.targetExponent (totalExponent m e - totalExponent m' e')
      = max (m.log2 + e - (m'.log2 + e') - 53) (-1074) := by
    show max ((m.log2 + 1 : Int) + e - ((m'.log2 + 1 : Int) + e') - 53) (-1074) = _
    omega
  obtain ⟨t, ht⟩ :
      ∃ t, min (e - e') (max (m.log2 + e - (m'.log2 + e') - 53) (-1074)) = t := ⟨_, rfl⟩
  obtain ⟨j, hj⟩ : ∃ j, (e - e' - t).toNat = j := ⟨_, rfl⟩
  have hdiv : UnpackedFloat.div Format.binary64 (.finite s m e hpos) (.finite s' m' e' hpos')
      = roundWithAccuracy Format.binary64 (s / s') (m <<< j / m') t
        (accuracyOfFraction (m <<< j % m') m') := by
    subst hj ht
    rw [← htarget]
    rfl
  have hquotient : ((m <<< j / m' : Nat) : ℚ) + (m <<< j % m' : Nat) / m' = (m <<< j : Nat) / m' := by
    have hsplit : ((m <<< j : Nat) : ℚ) = m' * (m <<< j / m' : Nat) + (m <<< j % m' : Nat) := by
      exact_mod_cast (Nat.div_add_mod (m <<< j) m').symm
    have hne : (m' : ℚ) ≠ 0 := by exact_mod_cast Nat.ne_of_gt hpos'
    rw [hsplit, add_div, mul_div_cancel_left₀ _ hne]
  have hvalue : ((m <<< j : Nat) : ℚ) / m' * 2 ^ t = m * 2 ^ e / (m' * 2 ^ e') := by
    have hshift := value_shiftLeft_sub m j (e - e')
    rw [show e - e' - j = t by omega, zpow_sub₀ (by norm_num)] at hshift
    rw [div_mul_eq_mul_div, hshift, ← mul_div_assoc, div_div, mul_comm (2 ^ e' : ℚ)]
  rw [hdiv, ← hvalue, ← hquotient]
  refine roundsTo_roundWithAccuracy _ (holds_fraction _ (Nat.mod_lt _ hpos')) ?_
  -- above the least exponent the unit was chosen small enough
  rcases Int.le_total t (-1074) with hleast | habove
  · omega
  · rcases Int.lt_or_eq_of_le habove with hlt | heq
    · have := log2_quotient (Nat.ne_of_gt hpos) hpos' (j := j) (by omega)
      omega
    · omega

section Products

variable {x y : Float} {a b : ℚ} (hx : Stands x a) (hy : Stands y b) (ha : a ≠ 0) (hb : b ≠ 0)

include hx hy ha hb

/-- The product of two floats other than zero is the float nearest to the product of the numbers. -/
theorem roundsTo_mul : RoundsTo (a * b) (x * y) := by
  obtain ⟨s, m, e, hpos, hu, rfl⟩ := hx.finite ha
  obtain ⟨s', m', e', hpos', hv, rfl⟩ := hy.finite hb
  have hmul : x * y = .ofModel (.pack (UnpackedFloat.mul Format.binary64 x.toModel.unpack
    y.toModel.unpack)) := rfl
  rw [hmul, hu, hv, signed_mul]
  refine roundsTo_mul_finite s s' hpos hpos' ?_
  -- a float that has not 53 bits has the least exponent
  have hlog := log2_mul_ge (Nat.ne_of_gt hpos) (Nat.ne_of_gt hpos')
  rcases (canonical_unpack hu).1.full with rfl | hfull
  · rcases (canonical_unpack hv).1.full with rfl | hfull'
    · exact .inr (by omega)
    · have := (Nat.le_log2 (Nat.ne_of_gt hpos')).2 hfull'
      exact .inl (by omega)
  · have := (Nat.le_log2 (Nat.ne_of_gt hpos)).2 hfull
    exact .inl (by omega)

/-- The quotient of two floats other than zero is the float nearest to the quotient of the
    numbers. -/
theorem roundsTo_div : RoundsTo (a / b) (x / y) := by
  obtain ⟨s, m, e, hpos, hu, rfl⟩ := hx.finite ha
  obtain ⟨s', m', e', hpos', hv, rfl⟩ := hy.finite hb
  have hdiv : x / y = .ofModel (.pack (UnpackedFloat.div Format.binary64 x.toModel.unpack
    y.toModel.unpack)) := rfl
  rw [hdiv, hu, hv, signed_div]
  exact roundsTo_div_finite s s' hpos hpos'

end Products

/-! ## Near and far -/

/-- A bound on a number bounds its last place, down to the least one. -/
theorem LastPlace.le {q : ℚ} {t n : Int} (h : LastPlace q t) (hn : -1021 ≤ n) (hq : |q| < 2 ^ n) :
    t ≤ n - 53 := by
  rcases h.full with hleast | hfull
  · omega
  · have hpower := (zpow_lt_zpow_iff_right₀ (by norm_num : (1 : ℚ) < 2)).1 (hfull.trans_lt hq)
    omega

/-- A number that is large has no place below its 53rd. -/
theorem LastPlace.ge {q : ℚ} {t n : Int} (h : LastPlace q t) (hq : 2 ^ n ≤ |q|) : n - 52 ≤ t := by
  have hpower := (zpow_lt_zpow_iff_right₀ (by norm_num : (1 : ℚ) < 2)).1 (hq.trans_lt h.bits)
  omega

/-- Half of a power of two is the power before it. -/
theorem half_two_zpow (t : Int) : (2 : ℚ) ^ t / 2 = 2 ^ (t - 1) := by
  rw [zpow_sub₀ (by norm_num), zpow_one]

/-- A number has one last place: with a greater one it would be too small for its leading bit,
    and with a lesser one it would have too many bits. -/
theorem LastPlace.unique {q : ℚ} {t u : Int} (h : LastPlace q t) (h' : LastPlace q u) : t = u := by
  have hle : ∀ {t u : Int}, LastPlace q t → LastPlace q u → u ≤ t := by
    intro t u h h'
    rcases h'.full with hleast | hfull
    · exact hleast ▸ h.least
    · have hpower := (zpow_lt_zpow_iff_right₀ (by norm_num : (1 : ℚ) < 2)).1
        (hfull.trans_lt h.bits)
      omega
  exact le_antisymm (hle h' h) (hle h h')

/-- Two multiples of the last place that are less than one apart are the same. -/
theorem eq_of_abs_sub_lt {z w t : Int} (h : |(z : ℚ) * 2 ^ t - w * 2 ^ t| < 2 ^ t) : z = w := by
  have hpower : (0 : ℚ) < 2 ^ t := by positivity
  rw [← sub_mul, abs_mul, abs_of_pos hpower, mul_lt_iff_lt_one_left hpower] at h
  have hint : |z - w| < 1 := by exact_mod_cast h
  exact sub_eq_zero.1 (Int.abs_lt_one_iff.1 hint)

/-- A number is rounded to one value: floats to which it is rounded stand for the same number, or
    are infinite with the same sign.  Two neighbours can be equally near, but only one is even. -/
theorem RoundsTo.unique {x y : Float} {q : ℚ} (hx : RoundsTo q x) (hy : RoundsTo q y) :
    (∃ v, Stands x v ∧ Stands y v)
      ∨ ∃ s, x.toModel.unpack = .infinity s ∧ y.toModel.unpack = .infinity s := by
  obtain ⟨t, z, hplace, hnear, heven, hstands, hinfinite⟩ := hx
  obtain ⟨u, w, hplace', hnear', heven', hstands', hinfinite'⟩ := hy
  obtain rfl := hplace.unique hplace'
  have hpower : (0 : ℚ) < 2 ^ t := by positivity
  have hsame : z = w := by
    have hapart : |(z : ℚ) * 2 ^ t - w * 2 ^ t|
        ≤ |(z : ℚ) * 2 ^ t - q| + |(w : ℚ) * 2 ^ t - q| := by
      simpa [abs_sub_comm q] using abs_sub_le ((z : ℚ) * 2 ^ t) q (w * 2 ^ t)
    rcases hnear.lt_or_eq with hlt | htie
    · exact eq_of_abs_sub_lt (hapart.trans_lt (by linarith))
    rcases hnear'.lt_or_eq with hlt' | htie'
    · exact eq_of_abs_sub_lt (hapart.trans_lt (by linarith))
    -- both are half a unit away, so they are even and at most one unit apart
    rw [htie, htie', ← sub_mul, abs_mul, abs_of_pos hpower, add_halves,
      mul_le_iff_le_one_left hpower] at hapart
    have hint : |z - w| ≤ 1 := by exact_mod_cast hapart
    obtain ⟨i, rfl⟩ := heven htie
    obtain ⟨i', rfl⟩ := heven' htie'
    have := abs_le.1 hint
    omega
  subst hsame
  rcases lt_or_ge |(z : ℚ) * 2 ^ t| overflow with hlt | hover
  · exact .inl ⟨_, hstands hlt, hstands' hlt⟩
  · exact .inr ⟨_, hinfinite hover, hinfinite' hover⟩

/-- A number that fits in 53 bits above the least place is rounded to itself. -/
theorem RoundsTo.exact {x : Float} {w u : Int} (h : RoundsTo (w * 2 ^ u) x) (hleast : -1074 ≤ u)
    (hmost : u ≤ 971) (hw : |(w : ℚ)| < 2 ^ 53) : Stands x (w * 2 ^ u) := by
  obtain ⟨t, z, hplace, hnear, -, hstands, -⟩ := h
  have hpower : (0 : ℚ) < 2 ^ u := by positivity
  have hbits : |(w : ℚ) * 2 ^ u| < 2 ^ (u + 53) := by
    rw [abs_mul, abs_of_pos hpower, zpow_add₀ (by norm_num), mul_comm]
    exact mul_lt_mul_of_pos_left (by exact_mod_cast hw) hpower
  have htu := hplace.le (by omega) hbits
  obtain ⟨j, hj⟩ := Int.le.dest (show t ≤ u by omega)
  have hmultiple : (w : ℚ) * 2 ^ u = (w * 2 ^ j : Int) * 2 ^ t := by
    rw [← hj, zpow_add₀ (by norm_num), zpow_natCast]
    push_cast
    ring
  have hlast : (0 : ℚ) < 2 ^ t := by positivity
  have hsame : z = w * 2 ^ j := eq_of_abs_sub_lt (t := t) (by
    rw [← hmultiple]
    linarith)
  rw [hsame, ← hmultiple] at hstands
  exact hstands (hbits.trans_le (zpow_le_zpow_right₀ (by norm_num) (by omega)))

/-- Below a power of two the error of rounding is bounded by half of the last place. -/
theorem RoundsTo.near {x : Float} {q : ℚ} {n : Int} (h : RoundsTo q x) (hlow : -1021 ≤ n)
    (hhigh : n < 1024) (hq : |q| < 2 ^ n) : ∃ v, Stands x v ∧ |v - q| ≤ 2 ^ (n - 54) := by
  obtain ⟨t, z, hplace, hnear, -, hstands, -⟩ := h
  have ht := hplace.le hlow hq
  have hbound : |(z : ℚ) * 2 ^ t - q| ≤ 2 ^ (n - 54) := by
    rw [half_two_zpow] at hnear
    exact hnear.trans (zpow_le_zpow_right₀ (by norm_num) (by omega))
  refine ⟨z * 2 ^ t, hstands ?_, hbound⟩
  calc |(z : ℚ) * 2 ^ t| ≤ |(z : ℚ) * 2 ^ t - q| + |q| := by
        simpa using abs_add_le ((z : ℚ) * 2 ^ t - q) q
    _ < 2 ^ n + 2 ^ n :=
        add_lt_add_of_le_of_lt (hbound.trans (zpow_le_zpow_right₀ (by norm_num) (by omega))) hq
    _ = 2 ^ (n + 1) := by rw [zpow_add₀ (by norm_num), zpow_one, mul_two]
    _ ≤ overflow := zpow_le_zpow_right₀ (by norm_num) (by omega)

/-- From a power of two on, a float absorbs what is less than half of the last place. -/
theorem RoundsTo.absorbs {x y : Float} {q v : ℚ} {n : Int} (h : RoundsTo q x) (hy : Stands y v)
    (hv : 2 ^ n ≤ |v|) (hq : 2 ^ n ≤ |q|) (hnear : |v - q| < 2 ^ (n - 53)) : Stands x v := by
  obtain ⟨t, z, hplace, hround, -, hstands, -⟩ := h
  have hvpos : v ≠ 0 := by
    rintro rfl
    have hpower : (0 : ℚ) < 2 ^ n := by positivity
    exact absurd hv (not_le.2 (by rwa [abs_zero]))
  rcases hy.cases with ⟨-, -, rfl⟩ | ⟨s, m, e, hpos, -, hcanonical, he, rfl⟩
  · exact absurd rfl hvpos
  have habs : |signed s (m * 2 ^ e)| = m * 2 ^ e := by
    rw [abs_signed, abs_of_nonneg (by positivity)]
  have hunit : (0 : ℚ) < 2 ^ e := by positivity
  have htop := hcanonical.add_le
  have hleast := hcanonical.least
  rw [habs] at hv
  have hn : n < e + 53 := (zpow_lt_zpow_iff_right₀ (by norm_num : (1 : ℚ) < 2)).1 (by linarith)
  -- the number that is rounded has not more places than the float
  have hqlt : |q| < 2 ^ (e + 53) :=
    calc |q| ≤ |signed s (m * 2 ^ e)| + |signed s (m * 2 ^ e) - q| := by
          simpa [abs_sub_comm q, add_comm] using abs_sub_le q (signed s (m * 2 ^ e)) 0
      _ < m * 2 ^ e + 2 ^ e :=
          add_lt_add_of_le_of_lt habs.le
            (hnear.trans_le (zpow_le_zpow_right₀ (by norm_num) (by omega)))
      _ ≤ 2 ^ (e + 53) := htop
  have hte := hplace.le (by omega) hqlt
  have hnt := hplace.ge hq
  -- so the float is a multiple of the last place too, and the nearest one
  obtain ⟨w, hw⟩ : ∃ w : Int, signed s (m * 2 ^ e) = w * 2 ^ t :=
    ⟨_, by rw [← value_decreaseExponent (show t ≤ e by omega), ← cast_apply]⟩
  have hhalf : |(w : ℚ) * 2 ^ t - q| < 2 ^ t / 2 := by
    rw [← hw, half_two_zpow]
    exact hnear.trans_le (zpow_le_zpow_right₀ (by norm_num) (by omega))
  have hsame : z = w := by
    refine eq_of_abs_sub_lt (t := t) ?_
    calc |(z : ℚ) * 2 ^ t - w * 2 ^ t| ≤ |(z : ℚ) * 2 ^ t - q| + |(w : ℚ) * 2 ^ t - q| := by
          simpa [abs_sub_comm q] using abs_sub_le ((z : ℚ) * 2 ^ t) q (w * 2 ^ t)
      _ < 2 ^ t / 2 + 2 ^ t / 2 := add_lt_add_of_le_of_lt hround hhalf
      _ = 2 ^ t := add_halves _
  subst hsame
  rw [← hw, habs] at hstands
  refine hw ▸ hstands ?_
  calc (m : ℚ) * 2 ^ e < 2 ^ (e + 53) := by linarith
    _ ≤ overflow := zpow_le_zpow_right₀ (by norm_num) (by omega)

/-- Below a power of two no float is nearer to it than one unit of 53 bits. -/
theorem Stands.add_le {x : Float} {q : ℚ} {n : Int} (h : Stands x q) (hn : -1021 ≤ n)
    (hq : |q| < 2 ^ n) : |q| + 2 ^ (n - 53) ≤ 2 ^ n := by
  rcases h.cases with ⟨-, -, rfl⟩ | ⟨s, m, e, hpos, -, hcanonical, -, rfl⟩
  · rw [abs_zero, zero_add]
    exact zpow_le_zpow_right₀ (by norm_num) (by omega)
  rw [abs_signed, abs_of_nonneg (by positivity)] at *
  rcases lt_trichotomy (e + 53) n with hsmall | rfl | hlarge
  · calc (m : ℚ) * 2 ^ e + 2 ^ (n - 53) ≤ 2 ^ (n - 1) + 2 ^ (n - 1) := by
          have hunit : (0 : ℚ) < 2 ^ e := by positivity
          have hpower : (2 : ℚ) ^ (e + 53) ≤ 2 ^ (n - 1) :=
            zpow_le_zpow_right₀ (by norm_num) (by omega)
          have hlast : (2 : ℚ) ^ (n - 53) ≤ 2 ^ (n - 1) :=
            zpow_le_zpow_right₀ (by norm_num) (by omega)
          linarith [hcanonical.add_le]
      _ = 2 ^ n := by rw [← half_two_zpow, add_halves]
  · rw [add_sub_cancel_right]
    exact hcanonical.add_le
  · have hpower : (2 : ℚ) ^ n ≤ 2 ^ (e + 52) := zpow_le_zpow_right₀ (by norm_num) (by omega)
    exact absurd (hpower.trans (hcanonical.two_zpow_le (by omega))) (not_le.2 hq)

/-- Above a power of two no float is nearer to it than two such units. -/
theorem Stands.le_of_lt {x : Float} {q : ℚ} {n : Int} (h : Stands x q) (hn : -1022 ≤ n)
    (hq : 2 ^ n < |q|) : 2 ^ n + 2 ^ (n - 52) ≤ |q| := by
  have hpower : (2 : ℚ) ^ n = ((2 ^ 52 : Nat) : ℚ) * 2 ^ (n - 52) := by
    rw [show n = 52 + (n - 52) by omega, zpow_add₀ (by norm_num)]
    norm_num
  have hcanonical' : Canonical (2 ^ 52) (n - 52) := ⟨by decide, by omega, .inr (le_refl _)⟩
  rcases h.cases with ⟨-, -, rfl⟩ | ⟨s, m, e, hpos, -, hcanonical, -, rfl⟩
  · rw [abs_zero] at hq
    exact absurd hq (not_lt.2 (by positivity))
  rw [abs_signed, abs_of_nonneg (by positivity)] at *
  rw [hpower] at hq ⊢
  rcases lt_trichotomy e (n - 52) with hsmall | rfl | hlarge
  · exact absurd hq (magnitude_lt hcanonical hcanonical' hsmall).le.not_gt
  · have hunit : (0 : ℚ) < 2 ^ (n - 52) := by positivity
    have hm : 2 ^ 52 < m := by exact_mod_cast lt_of_mul_lt_mul_right hq hunit.le
    have hm' : ((2 ^ 52 : Nat) : ℚ) + 1 ≤ m := by exact_mod_cast hm
    rw [← add_one_mul]
    exact mul_le_mul_of_nonneg_right hm' hunit.le
  · exact magnitude_add_le hcanonical' hcanonical hlarge

end BranchProbe.Numeral
