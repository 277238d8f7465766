/-
  Floats up to a bound.

  A float is the number that its bits stand for, so bounds on floats are proved in the rationals.

  1. `Holds em q` says what a mantissa with its two extra bits knows of the number that it was cut
     from.  One shift keeps it, so all do, and it is off by half a unit at most when it is rounded.
  2. `round_le`: a number with at least 53 bits is cut to 53, and what rounding adds is at most one
     unit of the last of them, a factor of `slack`.
  3. `unpack_pack`: a number below the `overflow` comes back from its bits as it is.
  4. `UpTo x q`: the float `x` is a normal number from one up to `q`.  `upTo_round` is the crux;
     products, whole numbers, powers of ten and scientific notation all end in one rounding.
-/
import BranchProbe.Numeral.Binary
import Mathlib.Tactic.Positivity
import Mathlib.Tactic.Linarith
import Mathlib.Tactic.LinearCombination
import Mathlib.Tactic.Ring
import Mathlib.Algebra.Order.Field.Power
import Mathlib.Data.Rat.Cast.Order

namespace BranchProbe.Numeral

open Float.Model Float.Model.UnpackedFloat

/-! ## Rounding -/

/-- Shifting to the right divides the mantissa and cuts off the remainder, of which only two bits
    are kept. -/
theorem mantissa_shiftRight (em : ExtendedMantissa) (k : Nat) :
    (em >>> k).mantissa = em.mantissa / 2 ^ k := by
  induction k with
  | zero => simp [HShiftRight.hShiftRight, Nat.repeat]
  | succ k ih =>
    have hstep : (em >>> (k + 1)).mantissa = (em >>> k).mantissa / 2 := rfl
    rw [hstep, ih, Nat.div_div_eq_div_mul, Nat.pow_succ]

theorem roundedMantissa_bounds (em : ExtendedMantissa) :
    em.mantissa ≤ em.roundedMantissa ∧ em.roundedMantissa ≤ em.mantissa + 1 := by
  obtain ⟨m, r, s⟩ := em
  cases r <;> cases s <;> simp [ExtendedMantissa.roundedMantissa, ExtendedMantissa.accuracy,
    Accuracy.roundToNearestEven]
  omega

/-- The accuracy is kept beside the mantissa and does not change it. -/
theorem mantissa_ofMantissaAndAccuracy (n : Nat) (acc : Accuracy) :
    (ExtendedMantissa.ofMantissaAndAccuracy n acc).mantissa = n := by
  cases acc with
  | exact => rfl
  | inexact o => cases o <;> rfl

/-- What is rounded after a shift is the quotient, or one more. -/
theorem rounded_shiftRight_bounds (n : Nat) (acc : Accuracy) (k : Nat) :
    n / 2 ^ k ≤ (ExtendedMantissa.ofMantissaAndAccuracy n acc >>> k).roundedMantissa
      ∧ (ExtendedMantissa.ofMantissaAndAccuracy n acc >>> k).roundedMantissa ≤ n / 2 ^ k + 1 := by
  have hbounds := roundedMantissa_bounds (ExtendedMantissa.ofMantissaAndAccuracy n acc >>> k)
  rwa [mantissa_shiftRight, mantissa_ofMantissaAndAccuracy] at hbounds

/-! ## Half a unit -/

/-- The mantissa and the bit after it are those of the number; the last bit says whether more
    follows. -/
def Holds (em : ExtendedMantissa) (q : ℚ) : Prop :=
  ∃ rest : ℚ, 0 ≤ rest ∧ rest < 1 / 2 ∧ (rest = 0 ↔ em.stickyBit = false)
    ∧ q = em.mantissa + em.roundBit.toNat / 2 + rest

/-- A whole number is held by itself, with nothing cut off. -/
theorem holds_exact (n : Nat) : Holds (.ofMantissaAndAccuracy n .exact) n :=
  ⟨0, le_refl 0, by norm_num, by simp [ExtendedMantissa.ofMantissaAndAccuracy],
    by simp [ExtendedMantissa.ofMantissaAndAccuracy]⟩

/-- A quotient is held by its whole part and the comparison of the remainder with half of the
    divisor, which is all that a division hands on. -/
theorem holds_fraction (n : Nat) {num den : Nat} (h : num < den) :
    Holds (.ofMantissaAndAccuracy n (accuracyOfFraction num den)) (n + num / den) := by
  have hden : (0 : ℚ) < den := by exact_mod_cast Nat.zero_lt_of_lt h
  have hnum : (num : ℚ) < den := by exact_mod_cast h
  rw [accuracyOfFraction]
  split
  · next hzero =>
    rw [hzero, Nat.cast_zero, zero_div, add_zero]
    exact holds_exact n
  next hne =>
  have hpos : (0 : ℚ) < num := by exact_mod_cast Nat.pos_of_ne_zero hne
  rcases lt_trichotomy (2 * num) den with hlt | heq | hgt
  · -- less than half: the round bit is off and the rest is the fraction
    rw [compare_lt_iff_lt.2 hlt]
    have hlt' : (2 : ℚ) * num < den := by exact_mod_cast hlt
    have hrest : (0 : ℚ) < num / den := div_pos hpos hden
    refine ⟨num / den, hrest.le, ?_, ?_, ?_⟩
    · rw [div_lt_div_iff₀ hden (by norm_num)]
      linarith
    · simpa [ExtendedMantissa.ofMantissaAndAccuracy] using hrest.ne'
    · simp [ExtendedMantissa.ofMantissaAndAccuracy]
  · rw [compare_eq_iff_eq.2 heq]
    have hhalf : (num : ℚ) / den = 1 / 2 := by
      have heq' : (2 : ℚ) * num = den := by exact_mod_cast heq
      rw [div_eq_div_iff hden.ne' (by norm_num)]
      linarith
    exact ⟨0, le_refl 0, by norm_num, by simp [ExtendedMantissa.ofMantissaAndAccuracy],
      by simp [ExtendedMantissa.ofMantissaAndAccuracy, hhalf]⟩
  · -- more than half: the round bit takes one half off the fraction
    rw [compare_gt_iff_gt.2 hgt]
    have hgt' : (den : ℚ) < 2 * num := by exact_mod_cast hgt
    have hrest : (0 : ℚ) < num / den - 1 / 2 := by
      rw [sub_pos, div_lt_div_iff₀ (by norm_num) hden]
      linarith
    refine ⟨num / den - 1 / 2, hrest.le, ?_, ?_, ?_⟩
    · have hone : (num : ℚ) / den < 1 := (div_lt_one hden).2 hnum
      linarith
    · simpa [ExtendedMantissa.ofMantissaAndAccuracy] using hrest.ne'
    · simp [ExtendedMantissa.ofMantissaAndAccuracy]

/-- A mantissa is the whole part of the number that it was cut from. -/
theorem Holds.bounds {em : ExtendedMantissa} {q : ℚ} (h : Holds em q) :
    (em.mantissa : ℚ) ≤ q ∧ q < em.mantissa + 1 := by
  obtain ⟨m, r, s⟩ := em
  obtain ⟨rest, hnonneg, hlt, -, rfl⟩ := h
  cases r <;> simp <;> constructor <;> linarith

/-- What is dropped by a shift is remembered.  The last bit of the mantissa becomes the bit after
    it, and the former one only counts for whether more follows. -/
theorem Holds.shiftRightOne {em : ExtendedMantissa} {q : ℚ} (h : Holds em q) :
    Holds em.shiftRightOne (q / 2) := by
  obtain ⟨m, r, s⟩ := em
  obtain ⟨rest, hnonneg, hlt, hsticky, rfl⟩ := h
  have hsplit : (m : ℚ) = 2 * (m / 2 : Nat) + (m % 2 : Nat) := by
    exact_mod_cast (Nat.div_add_mod m 2).symm
  have hbit : m % 2 = (m % 2 != 0).toNat := by
    rcases Nat.mod_two_eq_zero_or_one m with hm | hm <;> rw [hm] <;> rfl
  show Holds ⟨m / 2, m % 2 != 0, r || s⟩ _
  -- the bit after the mantissa is now the first one of the rest
  refine ⟨r.toNat / 4 + rest / 2, ?_, ?_, ?_, ?_⟩
  · positivity
  · cases r <;> simp <;> linarith
  · cases r with
    | false =>
      have hhalf : rest / 2 = 0 ↔ rest = 0 := by simp
      simpa [hhalf] using hsticky
    | true =>
      have hpos : (0 : ℚ) < 1 / 4 + rest / 2 := by positivity
      simpa using ne_of_gt hpos
  · dsimp only
    rw [← hbit, hsplit]
    ring

/-- Shifts by several places are so many shifts by one, so what is dropped is remembered through
    all of them. -/
theorem Holds.shiftRight {em : ExtendedMantissa} {q : ℚ} (h : Holds em q) (k : Nat) :
    Holds (em >>> k) (q / 2 ^ k) := by
  induction k with
  | zero => simpa [HShiftRight.hShiftRight, Nat.repeat] using h
  | succ k ih =>
    have hstep := ih.shiftRightOne
    rw [div_div, ← pow_succ] at hstep
    exact hstep

/-- A rounded mantissa is off by half a unit at most.  The two extra bits tell in which half the
    number lies, and that is all that rounding asks for. -/
theorem Holds.near {em : ExtendedMantissa} {q : ℚ} (h : Holds em q) :
    |(em.roundedMantissa : ℚ) - q| ≤ 1 / 2 := by
  obtain ⟨m, r, s⟩ := em
  obtain ⟨rest, hnonneg, hlt, hsticky, rfl⟩ := h
  rw [abs_le]
  cases r <;> cases s <;> simp [ExtendedMantissa.roundedMantissa, ExtendedMantissa.accuracy,
    Accuracy.roundToNearestEven] at hsticky ⊢
  · constructor <;> linarith
  · constructor <;> linarith
  · rcases Nat.mod_two_eq_zero_or_one m with hm | hm
    · simp only [hm, Nat.cast_zero]
      constructor <;> linarith
    · simp only [hm, Nat.cast_one]
      constructor <;> linarith
  · constructor <;> linarith

/-- Where a number lies half a unit from the rounded mantissa, that is even: of the two neighbours
    that are equally near the even one is taken. -/
theorem Holds.even {em : ExtendedMantissa} {q : ℚ} (h : Holds em q)
    (htie : |(em.roundedMantissa : ℚ) - q| = 1 / 2) : Even em.roundedMantissa := by
  obtain ⟨m, r, s⟩ := em
  obtain ⟨rest, hnonneg, hlt, hsticky, rfl⟩ := h
  cases r <;> cases s <;> simp [ExtendedMantissa.roundedMantissa, ExtendedMantissa.accuracy,
    Accuracy.roundToNearestEven] at hsticky htie ⊢
  · rw [hsticky] at htie
    norm_num at htie
  · rw [abs_of_nonneg hnonneg] at htie
    norm_num at htie
    linarith
  · rw [Nat.even_add]
    rcases Nat.mod_two_eq_zero_or_one m with hm | hm <;> simp [hm, Nat.even_iff]
  · have hpos : 0 < rest := lt_of_le_of_ne hnonneg (Ne.symm hsticky)
    rw [abs_of_nonneg (by linarith)] at htie
    norm_num at htie
    linarith

/-! ## 53 bits -/

/-- A number is rounded to 53 bits, or to the least exponent. -/
theorem targetExponent_totalExponent (m : Nat) (e : Int) :
    Format.binary64.targetExponent (totalExponent m e) = max (m.log2 + e - 52) (-1074) := by
  show max ((m.log2 + 1 : Int) + e - 53) (-1074) = _
  omega

/-- The shift to the last place of 53 bits, with the number of places named.  It is one to the
    right, or none. -/
theorem shiftToTargetExponent_eq (n : Nat) (e : Int) (acc : Accuracy) {k : Nat}
    (hk : (max (n.log2 + e - 52) (-1074) - e).toNat = k) :
    shiftToTargetExponent Format.binary64 n e acc
      = (ExtendedMantissa.ofMantissaAndAccuracy n acc >>> k, e + k) := by
  rw [shiftToTargetExponent, targetExponent_totalExponent, shiftToExponent, hk]

/-- The exponent of a number that is not too small leaves 53 bits. -/
theorem targetExponent_eq {m : Nat} {e : Int} (h : -1022 ≤ m.log2 + e) :
    Format.binary64.targetExponent (totalExponent m e) = m.log2 + e - 52 := by
  rw [targetExponent_totalExponent]
  omega

/-- A mantissa has 53 bits unless its exponent is the least one. -/
structure Canonical (m : Nat) (e : Int) : Prop where
  bits : m < 2 ^ 53
  least : -1074 ≤ e
  full : e = -1074 ∨ 2 ^ 52 ≤ m

/-- The second shift drops a zero if the first rounding has carried through all bits, and else it
    does nothing. -/
theorem shiftToTargetExponent_rounded {r : Nat} {t : Int} (hne : r ≠ 0) (hr : r ≤ 2 ^ 53)
    (hleast : -1074 ≤ t) (hfull : t = -1074 ∨ 2 ^ 52 ≤ r) :
    ∃ m e, (shiftToTargetExponent Format.binary64 r t .exact).1.mantissa = m
      ∧ (shiftToTargetExponent Format.binary64 r t .exact).2 = e
      ∧ m ≠ 0 ∧ t ≤ e ∧ (2 ^ 52 ≤ r → 2 ^ 52 ≤ m) ∧ Canonical m e
      ∧ (m : ℚ) * 2 ^ e = r * 2 ^ t := by
  rcases Nat.lt_or_ge r (2 ^ 53) with hlt | hcarry
  · have hlog : r.log2 < 53 := (Nat.log2_lt hne).2 hlt
    have hk : (max (r.log2 + t - 52) (-1074) - t).toNat = 0 := by omega
    rw [shiftToTargetExponent_eq r t .exact hk, mantissa_shiftRight]
    exact ⟨r, t, Nat.div_one r, add_zero t, hne, le_refl t, id, ⟨hlt, hleast, hfull⟩, rfl⟩
  · obtain rfl : r = 2 ^ 53 := Nat.le_antisymm hr hcarry
    have hlog : (2 ^ 53 : Nat).log2 = 53 := Nat.log2_two_pow
    have hk : (max ((2 ^ 53 : Nat).log2 + t - 52) (-1074) - t).toNat = 1 := by omega
    rw [shiftToTargetExponent_eq _ t .exact hk, mantissa_shiftRight]
    refine ⟨2 ^ 52, t + 1, by decide, rfl, by decide, by omega, fun _ => le_refl _,
      ⟨by decide, by omega, .inr (le_refl _)⟩, ?_⟩
    rw [zpow_add₀ (by norm_num), zpow_one]
    push_cast
    ring

/-- Rounding in its four steps: cut, round, cut again, and keep the zero apart.  The proofs about
    it give the results of the steps one after the other. -/
theorem roundWithAccuracy_eq (s : Sign) {n r m : Nat} {e t e' : Int} {acc : Accuracy}
    (hr : (shiftToTargetExponent Format.binary64 n e acc).1.roundedMantissa = r)
    (ht : (shiftToTargetExponent Format.binary64 n e acc).2 = t)
    (hm : (shiftToTargetExponent Format.binary64 r t .exact).1.mantissa = m)
    (he : (shiftToTargetExponent Format.binary64 r t .exact).2 = e') :
    roundWithAccuracy Format.binary64 s n e acc
      = if h : m = 0 then .zero s else .finite s m e' (Nat.pos_of_ne_zero h) := by
  subst he hm ht hr
  rfl

/-- What one rounding can add to a number. -/
def slack : ℚ := 1 + 1 / 2 ^ 52

theorem slack_ge_one : 1 ≤ slack := by norm_num [slack]

/-- A number that is cut to 53 bits, rounded up at most by one unit of the last one. -/
theorem cut_le {m r k : Nat} {e : Int} (hk : m.log2 = 52 + k) (hr : r ≤ m / 2 ^ k + 1) :
    (r : ℚ) * 2 ^ (e + k) ≤ m * 2 ^ e * slack := by
  have hne : m ≠ 0 := by
    rintro rfl
    simp at hk
    omega
  have hcut : r * 2 ^ k ≤ m + 2 ^ k :=
    calc r * 2 ^ k ≤ (m / 2 ^ k + 1) * 2 ^ k := Nat.mul_le_mul_right _ hr
      _ = m / 2 ^ k * 2 ^ k + 2 ^ k := by ring
      _ ≤ m + 2 ^ k := Nat.add_le_add_right (Nat.div_mul_le_self m _) _
  have hunit : 2 ^ 52 * 2 ^ k ≤ m := by
    rw [← Nat.pow_add, ← hk]
    exact Nat.log2_self_le hne
  have hcut' : (r : ℚ) * 2 ^ k ≤ m + 2 ^ k := by exact_mod_cast hcut
  have hunit' : (2 : ℚ) ^ 52 * 2 ^ k ≤ m := by exact_mod_cast hunit
  have hsum : (r : ℚ) * 2 ^ k ≤ m * slack := by
    rw [slack]
    linarith
  rw [zpow_add₀ (by norm_num), zpow_natCast]
  calc (r : ℚ) * (2 ^ e * 2 ^ k) = r * 2 ^ k * 2 ^ e := by ring
    _ ≤ m * slack * 2 ^ e := mul_le_mul_of_nonneg_right hsum (by positivity)
    _ = m * 2 ^ e * slack := by ring

/-- A number of at least 53 bits that is not too small is rounded to 53 bits, and by one unit of
    the last one at most. -/
theorem round_le (s : Sign) {m : Nat} {e : Int} (hm : 52 ≤ m.log2) (h : -1022 ≤ m.log2 + e) :
    ∃ m' e' hpos, roundWithAccuracy Format.binary64 s m e .exact = .finite s m' e' hpos
      ∧ m'.log2 = 52 ∧ m.log2 + e ≤ 52 + e' ∧ (m' : ℚ) * 2 ^ e' ≤ m * 2 ^ e * slack := by
  obtain ⟨k, hk⟩ := Nat.exists_eq_add_of_le hm
  have hne : m ≠ 0 := by
    rintro rfl
    simp at hm
  have hlow : 2 ^ 52 ≤ m / 2 ^ k := by
    rw [Nat.le_div_iff_mul_le (Nat.two_pow_pos k), ← Nat.pow_add, ← hk]
    exact Nat.log2_self_le hne
  have hhigh : m / 2 ^ k < 2 ^ 53 := by
    rw [Nat.div_lt_iff_lt_mul (Nat.two_pow_pos k), ← Nat.pow_add]
    have hlt : m < 2 ^ (m.log2 + 1) := Nat.lt_log2_self
    rwa [hk, Nat.add_right_comm] at hlt
  have hshift := shiftToTargetExponent_eq m e .exact (k := k) (by omega)
  have hbounds := rounded_shiftRight_bounds m .exact k
  obtain ⟨r, hr⟩ :
      ∃ r, (ExtendedMantissa.ofMantissaAndAccuracy m .exact >>> k).roundedMantissa = r := ⟨_, rfl⟩
  rw [hr] at hbounds
  obtain ⟨m', e', hm', he', hne', hle, hfull, hcanonical, hvalue⟩ :=
    shiftToTargetExponent_rounded (r := r) (t := e + k) (by omega) (by omega) (by omega)
      (.inr (by omega))
  refine ⟨m', e', Nat.pos_of_ne_zero hne', ?_, ?_, by omega, ?_⟩
  · rw [roundWithAccuracy_eq s (by rw [hshift]; exact hr) (by rw [hshift]) hm' he', dif_neg hne']
  · exact (Nat.log2_eq_iff hne').2 ⟨hfull (by omega), hcanonical.bits⟩
  · rw [hvalue]
    exact cut_le hk hbounds.2

/-! ## Packing -/

/-- The first power of two that no float reaches. -/
def overflow : ℚ := 2 ^ (1024 : Int)

/-- A number of 53 bits below the overflow has an exponent that can be packed. -/
theorem exponent_lt_of_lt_overflow {m : Nat} {e : Int} (hm : m.log2 = 52)
    (h : (m : ℚ) * 2 ^ e < overflow) : e < 972 := by
  have hne : m ≠ 0 := by
    rintro rfl
    simp at hm
  have hlow : 2 ^ 52 ≤ m := hm ▸ Nat.log2_self_le hne
  have hlow' : (2 : ℚ) ^ (52 : Int) ≤ m := by exact_mod_cast hlow
  have hpower : (2 : ℚ) ^ (52 + e) < 2 ^ (1024 : Int) :=
    calc (2 : ℚ) ^ (52 + e) = 2 ^ (52 : Int) * 2 ^ e := zpow_add₀ (by norm_num) _ _
      _ ≤ m * 2 ^ e := mul_le_mul_of_nonneg_right hlow' (by positivity)
      _ < 2 ^ (1024 : Int) := h
  have := (zpow_lt_zpow_iff_right₀ (by norm_num : (1 : ℚ) < 2)).1 hpower
  omega

theorem unpack_pack_zero (s : Sign) : (Float.Model.pack (.zero s)).unpack = .zero s := by
  cases s <;> rfl

theorem unpack_pack_infinity (s : Sign) : (Float.Model.pack (.infinity s)).unpack = .infinity s := by
  cases s <;> rfl

theorem unpack_pack_notANumber : (Float.Model.pack .notANumber).unpack = .notANumber := rfl

/-- Only a number with a leading bit is packed with its exponent; any other has the exponent bits
    zero, which mean the least exponent and no leading bit. -/
theorem pack_finite (s : Sign) {m : Nat} {e : Int} (hpos : 0 < m) (hhigh : e < 972) :
    UnpackedFloat.pack Format.binary64 (.finite s m e hpos)
      = if m.log2 + 1 = 53 then
          packComponents Format.binary64 s (BitVec.ofNat 11 (e + 1023 + 52).toNat)
            (BitVec.ofNat 52 m)
        else packComponents Format.binary64 s 0#11 (BitVec.ofNat 52 m) := by
  have hbiased : ¬ 2 ^ 11 ≤ (e + 1023 + 52).toNat + 1 := by omega
  exact if_neg hbiased

/-- A number of 53 bits below the overflow is packed with its exponent and all bits but the
    leading one. -/
theorem pack_normal (s : Sign) {m : Nat} {e : Int} (hpos : 0 < m) (hm : m.log2 = 52)
    (hhigh : e < 972) :
    UnpackedFloat.pack Format.binary64 (.finite s m e hpos)
      = packComponents Format.binary64 s (BitVec.ofNat 11 (e + 1023 + 52).toNat)
        (BitVec.ofNat 52 m) := by
  rw [pack_finite s hpos hhigh, if_pos (by rw [hm])]

/-- The leading bit, put back before the 52 others. -/
theorem toNat_leading (f : BitVec 52) : (1#1 ++ f).toNat = 2 ^ 52 + f.toNat := by
  have hbits : (1#1 ++ f).toNat = 1 <<< 52 ||| f.toNat := BitVec.toNat_append 1#1 f
  rw [hbits, ← Nat.shiftLeft_add_eq_or_of_lt f.isLt, Nat.shiftLeft_eq, Nat.one_mul]

theorem unpackSign_packComponents (s : Sign) (b : BitVec 11) (f : BitVec 52) :
    Sign.ofBitVec (unpackSign (packComponents Format.binary64 s b f)) = s := by
  have hbit : unpackSign (packComponents Format.binary64 s b f) = s.toBitVec := by
    show BitVec.extractLsb' 63 1 (s.toBitVec ++ b ++ f) = s.toBitVec
    rw [BitVec.extractLsb'_append_eq_of_le (by decide),
      BitVec.extractLsb'_append_eq_of_le (by decide)]
    exact BitVec.extractLsb'_eq_self
  rw [hbit]
  cases s <;> rfl

/-- What is packed with an exponent between the least and the greatest is a normal number. -/
theorem unpack_normal (s : Sign) {b : BitVec 11} (f : BitVec 52) (hzero : b ≠ 0#11)
    (hones : b ≠ -1#11) :
    ∃ hpos, UnpackedFloat.unpack Format.binary64 (packComponents Format.binary64 s b f)
      = .finite s (1#1 ++ f).toNat (b.toNat - (1023 + 52)) hpos := by
  have hsign := unpackSign_packComponents s b f
  have hexponent : unpackExponent (packComponents Format.binary64 s b f) = b :=
    unpackExponent_packComponents
  have hmantissa : unpackMantissa (packComponents Format.binary64 s b f) = f :=
    unpackMantissa_packComponents
  generalize packComponents Format.binary64 s b f = bits at *
  subst hexponent hmantissa hsign
  exact ⟨by rw [toNat_leading]; omega, (if_neg hones).trans (if_neg hzero)⟩

/-- A number of 53 bits below the overflow is packed as it is.  The leading bit is left out and
    put back, and the exponent is shifted by its bias and back. -/
theorem unpack_pack (s : Sign) {m : Nat} {e : Int} (hpos : 0 < m) (hm : m.log2 = 52)
    (hlow : -1074 ≤ e) (hhigh : e < 972) :
    (Float.Model.pack (.finite s m e hpos)).unpack = .finite s m e hpos := by
  obtain ⟨hmin, hmax⟩ := (Nat.log2_eq_iff (Nat.ne_of_gt hpos)).1 hm
  have hexponent : (BitVec.ofNat 11 (e + 1023 + 52).toNat).toNat = (e + 1023 + 52).toNat := by
    rw [BitVec.toNat_ofNat, Nat.mod_eq_of_lt (by omega)]
  have hzero : BitVec.ofNat 11 (e + 1023 + 52).toNat ≠ 0#11 := by
    intro h
    have hnat : (e + 1023 + 52).toNat = 0 := by rw [← hexponent, h]; rfl
    omega
  have hones : BitVec.ofNat 11 (e + 1023 + 52).toNat ≠ -1#11 := by
    intro h
    have hnat : (e + 1023 + 52).toNat = 2047 := by rw [← hexponent, h]; rfl
    omega
  have hmantissa : (1#1 ++ BitVec.ofNat 52 m).toNat = m := by
    rw [toNat_leading, BitVec.toNat_ofNat]
    omega
  obtain ⟨hpos', hunpack⟩ := unpack_normal s (BitVec.ofNat 52 m) hzero hones
  have hpacked : (Float.Model.pack (.finite s m e hpos)).unpack
      = .finite s (1#1 ++ BitVec.ofNat 52 m).toNat
        ((BitVec.ofNat 11 (e + 1023 + 52).toNat).toNat - (1023 + 52)) hpos' := by
    rw [← hunpack, ← pack_normal s hpos hm hhigh]
    rfl
  have hback : ((e + 1023 + 52).toNat : Int) - (1023 + 52) = e := by omega
  rw [hpacked]
  congr 1
  rw [hexponent, hback]

/-- What is packed with no exponent is a subnormal number: no leading bit is put before its bits,
    and its exponent is the least one. -/
theorem unpack_subnormal (s : Sign) {f : BitVec 52} (hne : f ≠ 0#52) :
    ∃ hpos, UnpackedFloat.unpack Format.binary64 (packComponents Format.binary64 s 0#11 f)
      = .finite s f.toNat (-1074) hpos := by
  have hsign := unpackSign_packComponents s 0#11 f
  have hexponent : unpackExponent (packComponents Format.binary64 s 0#11 f) = 0#11 :=
    unpackExponent_packComponents
  have hmantissa : unpackMantissa (packComponents Format.binary64 s 0#11 f) = f :=
    unpackMantissa_packComponents
  have hones : unpackExponent (packComponents Format.binary64 s 0#11 f) ≠ -1#11 := by
    rw [hexponent]
    decide
  have hnat : (unpackExponent (packComponents Format.binary64 s 0#11 f)).toNat = 0 := by
    rw [hexponent]
    rfl
  generalize packComponents Format.binary64 s 0#11 f = bits at *
  subst hmantissa hsign
  refine ⟨(BitVec.toNat_pos _).2 ((BitVec.pos_iff_ne_zero _).2 hne),
    (if_neg hones).trans ((if_pos hexponent).trans ((dif_neg hne).trans ?_))⟩
  congr 1
  rw [hnat]
  rfl

/-- A number of less bits has the least exponent, and is packed as it is. -/
theorem unpack_pack_subnormal (s : Sign) {m : Nat} (hpos : 0 < m) (hm : m < 2 ^ 52) :
    (Float.Model.pack (.finite s m (-1074) hpos)).unpack = .finite s m (-1074) hpos := by
  have hlog : m.log2 < 52 := (Nat.log2_lt (Nat.ne_of_gt hpos)).2 hm
  have hmantissa : (BitVec.ofNat 52 m).toNat = m := by
    rw [BitVec.toNat_ofNat, Nat.mod_eq_of_lt hm]
  have hne : BitVec.ofNat 52 m ≠ 0#52 := by
    intro h
    have hnat : m = 0 := by rw [← hmantissa, h]; rfl
    omega
  obtain ⟨hpos', hunpack⟩ := unpack_subnormal s hne
  have hpack := pack_finite s hpos (e := -1074) (by decide)
  rw [if_neg (by omega)] at hpack
  have hpacked : (Float.Model.pack (.finite s m (-1074) hpos)).unpack
      = .finite s (BitVec.ofNat 52 m).toNat (-1074) hpos' := by
    rw [← hunpack, ← hpack]
    rfl
  rw [hpacked]
  congr 1

/-! ## Operations -/

/-- The float is a normal number from 1 up to `q`, with either sign. -/
def UpTo (x : Float) (q : ℚ) : Prop :=
  ∃ s m e hpos, x.toModel.unpack = .finite s m e hpos ∧ m.log2 = 52 ∧ -52 ≤ e
    ∧ (m : ℚ) * 2 ^ e ≤ q

theorem UpTo.mono {x : Float} {q q' : ℚ} (h : UpTo x q) (hle : q ≤ q') : UpTo x q' := by
  obtain ⟨s, m, e, hpos, hx, hm, he, hq⟩ := h
  exact ⟨s, m, e, hpos, hx, hm, he, hq.trans hle⟩

/-- A float with a bound is not infinite.  This is the conclusion that all of the bounds are for. -/
theorem UpTo.isInf_eq_false {x : Float} {q : ℚ} (h : UpTo x q) : x.isInf = false := by
  obtain ⟨s, m, e, hpos, hx, -⟩ := h
  rw [Float.isInf, Float.Model.isInf, hx]
  rfl

/-- What is rounded to 53 bits and stays below the overflow is a float. -/
theorem upTo_round (s : Sign) {m : Nat} {e : Int} {q : ℚ} (hm : 52 ≤ m.log2)
    (h : 0 ≤ m.log2 + e) (hq : (m : ℚ) * 2 ^ e ≤ q) (hover : q * slack < overflow) :
    UpTo (.ofModel (.pack (roundWithAccuracy Format.binary64 s m e .exact))) (q * slack) := by
  obtain ⟨m', e', hpos, hround, hm', he', hle⟩ := round_le s hm (e := e) (by omega)
  have hq' : (m' : ℚ) * 2 ^ e' ≤ q * slack :=
    hle.trans (mul_le_mul_of_nonneg_right hq (le_trans zero_le_one slack_ge_one))
  have hlt := exponent_lt_of_lt_overflow hm' (lt_of_le_of_lt hq' hover)
  have hunpack := unpack_pack s hpos hm' (by omega) hlt
  rw [hround]
  exact ⟨s, m', e', hpos, hunpack, hm', by omega, hq'⟩

/-- A product has at least as many bits as its factors have together, less one. -/
theorem log2_mul_ge {m n : Nat} (hm : m ≠ 0) (hn : n ≠ 0) :
    m.log2 + n.log2 ≤ (m * n).log2 := by
  rw [Nat.le_log2 (Nat.mul_ne_zero hm hn), Nat.pow_add]
  exact Nat.mul_le_mul (Nat.log2_self_le hm) (Nat.log2_self_le hn)

/-- A product of floats that stays below the overflow is bounded by the product of their bounds
    and one slack for the rounding. -/
theorem UpTo.mul {x y : Float} {q r : ℚ} (hx : UpTo x q) (hy : UpTo y r)
    (hover : q * r * slack < overflow) : UpTo (x * y) (q * r * slack) := by
  obtain ⟨s, m, e, hpos, hux, hm, he, hq⟩ := hx
  obtain ⟨s', n, f, hpos', huy, hn, hf, hr⟩ := hy
  have hlog := log2_mul_ge (Nat.ne_of_gt hpos) (Nat.ne_of_gt hpos')
  have hproduct : ((m * n : Nat) : ℚ) * 2 ^ (e + f) ≤ q * r := by
    rw [zpow_add₀ (by norm_num), Nat.cast_mul]
    calc (m : ℚ) * n * (2 ^ e * 2 ^ f) = m * 2 ^ e * (n * 2 ^ f) := by ring
      _ ≤ q * r := mul_le_mul hq hr (by positivity) (le_trans (by positivity) hq)
  have hmul : x * y = .ofModel (.pack (roundWithAccuracy Format.binary64 (s * s') (m * n) (e + f)
      .exact)) := by
    show Float.ofModel (Float.Model.pack (UnpackedFloat.mul _ x.toModel.unpack y.toModel.unpack)) = _
    rw [hux, huy]
    rfl
  rw [hmul]
  exact upTo_round _ (by omega) (by omega) hproduct hover

/-! ## Whole numbers and powers of ten -/

/-- Shifting up adds at least as many bits as the shift has places. -/
theorem log2_shiftLeft_ge {m : Nat} (hm : m ≠ 0) (k : Nat) : m.log2 + k ≤ (m <<< k).log2 := by
  have hlog := log2_mul_ge hm (Nat.ne_of_gt (Nat.two_pow_pos k))
  rwa [Nat.log2_two_pow, ← Nat.shiftLeft_eq] at hlog

/-- Shifting up and scaling down by as much leaves a number as it is. -/
theorem value_shiftLeft (m k : Nat) : ((m <<< k : Nat) : ℚ) * 2 ^ (-k : Int) = m := by
  rw [Nat.shiftLeft_eq, Nat.cast_mul, Nat.cast_pow, Nat.cast_ofNat, zpow_neg, zpow_natCast,
    mul_assoc, mul_inv_cancel₀ (by positivity), mul_one]

/-- A whole number of 64 bits as a float, bounded by itself and one slack: it may have more than
    53 bits and be rounded up. -/
theorem upTo_toFloat {n : UInt64} (hn : n.toNat ≠ 0) (hover : n.toNat * slack < overflow) :
    UpTo n.toFloat (n.toNat * slack) := by
  have hlog : (0 : Int) ≤ n.toNat.log2 := Int.natCast_nonneg _
  have htarget := targetExponent_eq (m := n.toNat) (e := 0) (by omega)
  obtain ⟨k, hk⟩ : ∃ k : Nat, (-(n.toNat.log2 + 0 - 52 : Int)).toNat = k := ⟨_, rfl⟩
  have hshift := log2_shiftLeft_ge hn k
  have hround : n.toFloat = .ofModel (.pack (roundWithAccuracy Format.binary64 .positive
      (n.toNat <<< k) (-k) .exact)) := by
    have hcompare : compare (n.toNat : Int) 0 = .gt := Int.compare_eq_gt.2 (by omega)
    rw [UInt64.toFloat, Float.Model.ofUInt64, UnpackedFloat.ofUInt64, UnpackedFloat.ofNat,
      UnpackedFloat.ofInt, UnpackedFloat.normalize, hcompare]
    simp only [UnpackedFloat.round, decreaseExponent, Int.toNat_natCast, htarget, zero_sub, hk]
  rw [hround]
  exact upTo_round _ (by omega) (by omega) (value_shiftLeft _ _).le hover

/-- A number in scientific notation, of any size, when it is computed in whole numbers.  There is
    one rounding, so there is one slack in the bound. -/
theorem upTo_model_ofScientific {m k : Nat} (hm : m ≠ 0) (hk : k ≤ 2048)
    (hover : m * 10 ^ k * slack < overflow) :
    UpTo (.ofModel (Float.Model.ofScientific m k)) (m * 10 ^ k * slack) := by
  have hpower : (10 ^ k : Nat) ≠ 0 := Nat.ne_of_gt (Nat.pow_pos (by decide))
  have hwide := log2_shiftLeft_ge hm 53
  have hlog := log2_mul_ge (m := m <<< 53) (fun h => hm (Nat.shiftLeft_eq_zero_iff.1 h)) hpower
  have hround : Float.Model.ofScientific m k = .pack (roundWithAccuracy Format.binary64 .positive
      (m <<< 53 * 10 ^ k) (-(53 : Nat) + 0) .exact) := by
    have hsmall : ¬ (k : Int) > 2 ^ 11 := by omega
    have hlarge : ¬ (k : Int) < -(2 ^ 11 + m.log2) := by omega
    rw [Float.Model.ofScientific, UnpackedFloat.ofScientific, dif_neg hm, if_neg hsmall,
      if_neg hlarge, if_pos (Int.natCast_nonneg k)]
    rfl
  have hvalue : ((m <<< 53 * 10 ^ k : Nat) : ℚ) * 2 ^ (-(53 : Nat) + 0 : Int) = m * 10 ^ k := by
    have hshift := value_shiftLeft m 53
    rw [Nat.cast_mul, Nat.cast_pow, Nat.cast_ofNat, add_zero]
    linear_combination (10 : ℚ) ^ k * hshift
  rw [hround]
  exact upTo_round _ (by omega) (by omega) hvalue.le hover

theorem toBitVec_injective : Function.Injective Sign.toBitVec := by
  intro s s' h
  cases s with
  | negative =>
    cases s' with
    | negative => rfl
    | positive => exact absurd h (by decide)
  | positive =>
    cases s' with
    | negative => exact absurd h (by decide)
    | positive => rfl

/-- The sign bit, the significand and the exponent of a number that is neither zero nor infinite.
    They are compared where the number itself, which carries a proof, cannot be. -/
def parts? : UnpackedFloat → Option (BitVec 1 × Nat × Int)
  | .finite s m e _ => some (s.toBitVec, m, e)
  | _ => none

/-- Parts that agree make up the number, with the proof that it is not zero. -/
theorem finite_of_parts? {u : UnpackedFloat} {s : Sign} {m : Nat} {e : Int}
    (h : parts? u = some (s.toBitVec, m, e)) : ∃ hpos, u = .finite s m e hpos := by
  cases u with
  | finite s' m' e' hpos =>
    obtain ⟨hsign, hrest⟩ := Prod.mk.inj (Option.some.inj h)
    obtain rfl := toBitVec_injective hsign
    obtain ⟨rfl, rfl⟩ := Prod.mk.inj hrest
    exact ⟨hpos, rfl⟩
  | _ => nomatch h

/-- The table of the powers of ten is exact: every entry is the power of ten itself, shifted to 53
    bits, and not the nearest float to it. -/
theorem table_exact : ∀ k : Fin 23,
    let e : Nat := (10 ^ k.val).log2
    let m : Nat := 10 ^ k.val * 2 ^ 52 / 2 ^ e
    parts? Float.exactlyRepresentablePowersOfTen[k].toModel.unpack
        = some (Sign.positive.toBitVec, m, (e : Int) - 52)
      ∧ m.log2 = 52 ∧ m * 2 ^ e = 10 ^ k.val * 2 ^ 52 := by
  decide +kernel

/-- What an entry of the table is made of, and the power of ten that it comes to. -/
theorem exists_finite_table (k : Fin 23) : ∃ m e hpos,
    Float.exactlyRepresentablePowersOfTen[k].toModel.unpack = .finite .positive m e hpos
      ∧ m.log2 = 52 ∧ -52 ≤ e ∧ (m : ℚ) * 2 ^ e = 10 ^ k.val := by
  obtain ⟨hparts, hm, hvalue⟩ := table_exact k
  generalize (10 ^ k.val).log2 = e at *
  generalize 10 ^ k.val * 2 ^ 52 / 2 ^ e = m at *
  have hvalue' : (m : ℚ) * 2 ^ e = 10 ^ k.val * 2 ^ 52 := by exact_mod_cast hvalue
  obtain ⟨hpos, hunpack⟩ := finite_of_parts? hparts
  refine ⟨m, _, hpos, hunpack, hm, by omega, ?_⟩
  rw [zpow_sub₀ (by norm_num), zpow_natCast, zpow_ofNat, ← mul_div_assoc, hvalue', mul_div_assoc,
    div_self (by positivity), mul_one]

/-- The powers of ten that are looked up are bounded by themselves. -/
theorem upTo_table (k : Fin 23) :
    UpTo Float.exactlyRepresentablePowersOfTen[k] (10 ^ k.val) := by
  obtain ⟨m, e, hpos, hunpack, hm, he, hvalue⟩ := exists_finite_table k
  exact ⟨.positive, m, e, hpos, hunpack, hm, he, hvalue.le⟩

/-- A number in scientific notation.  Where number and power of ten are floats themselves, it is
    their product. -/
theorem upTo_ofScientific {m k : Nat} (hm : m ≠ 0) (hk : k ≤ 2048)
    (hover : m * 10 ^ k * slack ^ 2 < overflow) :
    UpTo (Float.ofScientific m false k) (m * 10 ^ k * slack ^ 2) := by
  have hone := slack_ge_one
  have hpos : (0 : ℚ) ≤ m * 10 ^ k := by positivity
  rw [Float.ofScientific]
  split
  · next h =>
    -- few digits and a small power: their float is multiplied by one of the table
    obtain ⟨hm53, hk22⟩ := h
    have hword : m.toUInt64.toNat = m := by
      rw [Nat.toUInt64, UInt64.toNat_ofNat', Nat.mod_eq_of_lt (by omega)]
    have hle : (m : ℚ) * slack ≤ m * 10 ^ k * slack ^ 2 := by
      have hten : (1 : ℚ) ≤ 10 ^ k := one_le_pow₀ (by norm_num)
      have hm0 : (0 : ℚ) ≤ m := by positivity
      exact mul_le_mul (le_mul_of_one_le_right hm0 hten) (le_self_pow₀ hone (by decide))
        (by linarith) hpos
    have hfloat := upTo_toFloat (n := m.toUInt64) (by rwa [hword])
      (by rw [hword]; exact lt_of_le_of_lt hle hover)
    rw [hword] at hfloat
    have hproduct : (m : ℚ) * slack * 10 ^ k * slack = m * 10 ^ k * slack ^ 2 := by ring
    have hmul := hfloat.mul (upTo_table ⟨k, by omega⟩) (by rw [hproduct]; exact hover)
    rw [hproduct] at hmul
    exact hmul
  · have hle : (m : ℚ) * 10 ^ k * slack ≤ m * 10 ^ k * slack ^ 2 :=
      mul_le_mul_of_nonneg_left (le_self_pow₀ hone (by decide)) hpos
    exact (upTo_model_ofScientific hm hk (lt_of_le_of_lt hle hover)).mono hle

end BranchProbe.Numeral
